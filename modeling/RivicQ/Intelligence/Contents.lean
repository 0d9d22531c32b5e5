import Mathlib
import RivicQ.Intelligence.PQCClass
import RivicQ.Intelligence.Policies

namespace RivicQ.Intelligence.Contents

open RivicQ.Lib.GoStrings RivicQ.Intelligence.Findings RivicQ.Intelligence.Fingerprint

/-- What a content scanner found. -/
structure ContentFinding where
  id : String
  ruleID : String
  fingerprint : String
  filePath : String
  findingType : String
  algorithm : String
  severity : String
  description : String
  evidence : String
  tool : String
  cve : String
  line : Nat
  keyLength : Nat
  quantumSafe : Bool
  compliance : List String

def severityText : Severity → String
  | .critical => "CRITICAL"
  | .high => "HIGH"
  | .medium => "MEDIUM"
  | .low => "LOW"
  | .info => "INFO"

variable (cm : CaseMap)

def parseBits (s : String) : Nat :=
  if contains s "1024" then 1024
  else if contains s "2048" then 2048
  else if contains s "3072" then 3072
  else if contains s "4096" then 4096
  else 0

def usageFromType (findingType protocol : String) : String :=
  let t := toUpper cm (findingType ++ " " ++ protocol)
  if contains t "TLS" || contains t "CERT" then "transport authentication"
  else if contains t "SSH" || contains t "HOST_KEY" then "remote access"
  else if contains t "JWT" || contains t "SIG" then "signature verification"
  else if contains t "SECRET" || contains t "KEY" then "credential material"
  else if contains t "MD5" || contains t "SHA" then "hashing"
  else "cryptographic usage"

def riskMethod : String :=
  "crypto_risk = algorithm + key_strength + usage_criticality + exposure + quantum_migration + " ++
    "compliance_impact (capped at 100)"

/-- The contribution of the algorithm, from what names it. -/
def algorithmFactor (f : Finding) (algo : String) : List Factor :=
  if contains algo "MD5" || contains algo "SHA-1" || contains algo "SHA1" then
    [⟨"Broken or legacy hash", 28⟩]
  else if contains algo "3DES" || contains algo "RC4" || contains algo "DES" then
    [⟨"Broken or legacy cipher", 30⟩]
  else if contains algo "DSA" && !contains algo "ECDSA" && !contains algo "ML-DSA" then
    [⟨"Legacy DSA", 24⟩]
  else if contains algo "RSA" then
    let bits := if f.keyLength = 0 then (parseBits algo : Int) else f.keyLength
    if 0 < bits ∧ bits < 2048 then [⟨"RSA key shorter than 2048 bits", 32⟩]
    else if bits = 2048 then [⟨"RSA-2048 (classical, BSI sunset for new systems)", 16⟩]
    else [⟨"RSA (quantum-vulnerable primitive)", 12⟩]
  else if contains algo "ECDSA" || contains algo "ECDH" || contains algo "P-256" then
    [⟨"Elliptic-curve primitive (quantum-vulnerable)", 14⟩]
  else if contains algo "TLS 1.0" || contains algo "TLS1.0" || contains algo "TLS 1.1" then
    [⟨"TLS below 1.2", 26⟩]
  else []

def usageFactor (f : Finding) : List Factor :=
  let usage := toLower cm f.usage
  if usage = "transport authentication" ∨ usage = "remote access" ∨
      usage = "signature verification" then
    [⟨"Usage criticality (auth/transport)", 12⟩]
  else if usage = "credential material" then [⟨"Usage criticality (secrets)", 18⟩]
  else []

def factors (f : Finding) (controls : List String) : List Factor :=
  let algo := toUpper cm (f.algorithm ++ " " ++ f.evidence ++ " " ++ f.location)
  algorithmFactor f algo ++ usageFactor cm f ++
    (if contains (toLower cm (f.evidence ++ f.location)) "0.0.0.0" ||
        contains (toLower cm f.evidence) "public" then
      [⟨"Internet exposure indicator", 16⟩] else []) ++
    (if f.kev then [⟨"CISA KEV", 20⟩] else []) ++
    (if f.cve ≠ "" then [⟨"Known CVE mapping", 10⟩] else []) ++
    (if !f.quantumSafe && (contains algo "RSA" || contains algo "EC") then
      [⟨"Quantum migration risk (no PQC plan asserted)", 8⟩] else []) ++
    (if controls ≠ [] then [⟨"Compliance control mapping", 6⟩] else [])

/-- The risk of a finding, for which there are some controls. -/
def scoreCrypto (f : Finding) (controls : List String) : RiskBreakdown :=
  let contributors := factors cm f controls
  let total := (contributors.map Factor.points).sum
  let score := if total > 100 then 100 else total
  let level :=
    if score ≥ 70 then "CRITICAL"
    else if score ≥ 45 then "HIGH"
    else if score ≥ 25 then "MEDIUM"
    else if score = 0 then
      if normalizeSeverity f.severity = .info then "LOW" else severityText (normalizeSeverity f.severity)
    else "LOW"
  { score, level, contributors, method := riskMethod }

/-- No CVE is listed as exploited. -/
def kevCVEs : List String := []

def fromContent (digest : List UInt8 → String) (now : Time) (f : ContentFinding) : Finding :=
  let keyLength :=
    if f.keyLength = 0 then
      parseBits (toUpper cm (f.evidence ++ " " ++ f.description ++ " " ++ f.algorithm))
    else f.keyLength
  let n : Finding := {
    id := f.id
    ruleID := f.ruleID
    fingerprint := f.fingerprint
    scanner := firstNonEmpty [f.tool, if f.cve ≠ "" then "sca" else "github-content"]
    cve := f.cve
    severity := severityText (normalizeSeverity f.severity)
    evidence := f.evidence
    location := f.filePath
    line := f.line
    algorithm := f.algorithm
    keyLength
    status := "open"
    quantumSafe := f.quantumSafe
    usage := usageFromType cm f.findingType ""
    kev := f.cve ≠ "" && kevCVEs.contains f.cve }
  let risk := scoreCrypto cm n f.compliance
  finalizeFinding cm digest now { n with
    risk
    riskScore := risk.score
    severity := if severityRank risk.level > severityRank n.severity then risk.level else n.severity }

variable {cm} {digest : List UInt8 → String} {now : Time} {f : ContentFinding}

@[simp] theorem fromContent_algorithm : (fromContent cm digest now f).algorithm = f.algorithm := rfl

@[simp] theorem fromContent_evidence : (fromContent cm digest now f).evidence = f.evidence := rfl

@[simp] theorem fromContent_location : (fromContent cm digest now f).location = f.filePath := rfl

theorem fromContent_keyLength : (fromContent cm digest now f).keyLength =
    if f.keyLength = 0 then
      (parseBits (toUpper cm (f.evidence ++ " " ++ f.description ++ " " ++ f.algorithm)) : Int)
    else f.keyLength := by
  change ((if f.keyLength = 0 then _ else _ : Nat) : Int) = _
  split <;> rfl

/-- Only a text with 1024 in it has a short key length read off. -/
theorem parseBits_short_iff {s : String} :
    0 < parseBits s ∧ parseBits s < 2048 ↔ contains s "1024" = true := by
  unfold parseBits
  split_ifs <;> simp_all

end RivicQ.Intelligence.Contents

namespace RivicQ.Intelligence.Adapters

open RivicQ.Lib.GoStrings RivicQ.Lib.Tables
open RivicQ.Intelligence.Findings RivicQ.Intelligence.Policies RivicQ.Intelligence.Contents

def maxExternalFindings : Nat := 40

variable (pl : Platform)

def appendExternal (out : List Finding) (f : Finding) : List Finding :=
  if excludedPath pl f.location then out
  else if out.length ≥ maxExternalFindings then out
  else out ++ [f]

def numbered (tool : String) (n : Nat) : String := tool ++ "-" ++ toString n

/-- The loop of an adapter over the entries of a report, less those that it skips. -/
def report {E : Type} (tool : String) (skipped : E → Bool) (finding : E → String → Finding)
    (out : List Finding) (entries : List E) : List Finding :=
  entries.foldl (fun out e =>
    if skipped e then out
    else appendExternal pl out (finding e (numbered tool (out.length + 1)))) out

structure TrivyVulnerability where
  vulnerabilityID : String
  pkgName : String
  installedVersion : String
  severity : String
  title : String

structure TrivyResult where
  target : String
  vulnerabilities : List TrivyVulnerability

def trivyFinding (target : String) (v : TrivyVulnerability) (id : String) : Finding where
  id := id
  scanner := "trivy"
  component := v.pkgName
  cve := v.vulnerabilityID
  severity := severityText (normalizeSeverity v.severity)
  evidence := trimSpace (v.title ++ " " ++ v.pkgName ++ "@" ++ v.installedVersion)
  location := target
  status := "open"
  labels := (∅ : Table String).insert "tool" "trivy"

/-- The findings of a decoded report. -/
def runTrivy (results : List TrivyResult) : List Finding :=
  results.foldl (fun out res =>
    report pl "trivy" (·.vulnerabilityID = "") (trivyFinding res.target) out res.vulnerabilities) []

structure GrypeMatch where
  id : String
  severity : String
  name : String
  version : String

def grypeFinding (root : String) (m : GrypeMatch) (id : String) : Finding where
  id := id
  scanner := "grype"
  component := m.name
  cve := m.id
  severity := severityText (normalizeSeverity m.severity)
  evidence := trimSpace (m.name ++ "@" ++ m.version)
  location := root
  status := "open"
  labels := (∅ : Table String).insert "tool" "grype"

def runGrype (root : String) (ms : List GrypeMatch) : List Finding :=
  report pl "grype" (·.id = "") (grypeFinding root) [] ms

structure Leak where
  ruleID : String
  description : String
  file : String
  startLine : Int

def gitleaksFinding (leak : Leak) (id : String) : Finding where
  id := id
  scanner := "gitleaks"
  severity := "HIGH"
  evidence := leak.ruleID ++ " " ++ leak.description
  location := leak.file
  line := leak.startLine
  status := "open"
  labels := ((∅ : Table String).insert "tool" "gitleaks").insert "rule" leak.ruleID

/-- Whether a leak names its rule is not looked at. -/
def runGitleaks (leaks : List Leak) : List Finding :=
  report pl "gitleaks" (fun _ => false) gitleaksFinding [] leaks

structure OSVVulnerability where
  id : String
  summary : String

structure OSVPackage where
  name : String
  version : String
  vulnerabilities : List OSVVulnerability

structure OSVResult where
  packages : List OSVPackage

def osvFinding (root : String) (pkg : OSVPackage) (v : OSVVulnerability) (id : String) :
    Finding where
  id := id
  scanner := "osv-scanner"
  component := pkg.name
  cve := v.id
  severity := "MEDIUM"
  evidence := trimSpace (v.summary ++ " " ++ pkg.name ++ "@" ++ pkg.version)
  location := root
  status := "open"
  labels := (∅ : Table String).insert "tool" "osv-scanner"

def runOSV (root : String) (results : List OSVResult) : List Finding :=
  results.foldl (fun out res =>
    res.packages.foldl (fun out pkg =>
      report pl "osv" (·.id = "") (osvFinding root pkg) out pkg.vulnerabilities) out) []

end RivicQ.Intelligence.Adapters
