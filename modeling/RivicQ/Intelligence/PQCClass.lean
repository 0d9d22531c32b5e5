import Mathlib.Data.List.SplitOn
import RivicQ.Intelligence.Findings
import RivicQ.Lib.Groups
import RivicQ.Quantum.QiskitProfile

namespace RivicQ.Intelligence.PQCClass

open RivicQ.Lib.GoStrings RivicQ.Intelligence.Findings
open RivicQ.Quantum

def taxonomyVersion : String := "rivicq-pqc-taxonomy/1.0.0"

def classPQCLegacy : String := "legacy"

def classPQCHighRisk : String := "high_risk"

def classPQCMigrationRequired : String := "migration_required"

def classPQCHybridReady : String := "hybrid_ready"

def classPQCReady : String := "pqc_ready"

def classPQCUnknown : String := "unknown"

structure PQCClassReason where
  «class» : String
  version : String
  reason : String
  action : String
  attackClass : String := ""

def pqcRecommendedAction (cls : String) : String :=
  if cls = classPQCReady then
    "Keep the NIST PQC primitive and track parameter-set updates. This is a taxonomy class, " ++
      "not CAVP validation."
  else if cls = classPQCHybridReady then
    "Prefer the hybrid combination during migration; symmetric and hash sizes are already " ++
      "Grover-resistant."
  else if cls = classPQCMigrationRequired then
    "Plan migration to ML-KEM / ML-DSA / SLH-DSA (FIPS 203/204/205). The primitive is " ++
      "acceptable today and is classified, not yet broken."
  else if cls = classPQCHighRisk then
    "Replace now. The primitive is below policy and does not need a quantum computer to " ++
      "justify removal."
  else if cls = classPQCLegacy then
    "Remove immediately. The primitive is already broken classically; a quantum adversary only " ++
      "shortens the timeline."
  else
    "Insufficient evidence to classify. Re-scan with a supported detector and treat this as a " ++
      "coverage gap."

def isHybridEvidence (blob : String) : Bool :=
  containsAny blob ["HYBRID", "X25519", " + ML-", "-ML-KEM", "KEM OR", "COMBINED"]

/-- What the rules say of a finding's text, in their order: the class and the reason. -/
def classRules (blob : String) (keyLength : Int) (attackClass : QiskitProfile.AttackClass) :
    String × String :=
  -- Legacy first: these are already broken without a quantum adversary.
  if containsAny blob ["MD5"] then
    (classPQCLegacy, "MD5 is collision-broken; no quantum adversary required")
  else if containsAny blob ["RC4"] then
    (classPQCLegacy, "RC4 is a broken stream cipher")
  else if containsAny blob ["3DES", "DES-EDE", " TRIPLE DES", "TRIPLEDES"] then
    (classPQCLegacy, "3DES has a 64-bit block and Sweet32 exposure")
  else if containsAny blob ["SHA-1", "SHA1"] then
    (classPQCLegacy, "SHA-1 is collision-broken")
  else if containsAny blob ["TLS 1.0", "TLS1.0", "TLS 1.1", "TLS1.1", "SSL 3.0", "SSL3.0"] then
    (classPQCLegacy, "obsolete TLS/SSL protocol version")
  else if contains blob "RSA" && decide (keyLength > 0) && decide (keyLength < 2048) then
    (classPQCHighRisk, "RSA key below 2048 bits is below policy")
  else if containsAny blob ["ML-KEM", "ML-KSA", "ML_DSA", "ML-DSA", "SLH-DSA", "FALCON",
      "DILITHIUM", "SPHINCS"] then
    if isHybridEvidence blob then
      (classPQCHybridReady, "PQC primitive combined with a classical primitive (hybrid)")
    else
      (classPQCReady, "NIST-standardised post-quantum primitive (FIPS 203/204/205 family)")
  else
    match attackClass with
    | .shor => (classPQCMigrationRequired, "classical public-key primitive, broken by a " ++
        "cryptographically relevant quantum computer")
    | .grover =>
      if keyLength > 0 && keyLength ≥ 256 then
        (classPQCHybridReady, "symmetric/hash primitive at a Grover-resistant key size")
      else
        (classPQCHighRisk, "symmetric/hash primitive below Grover-resistant key size")
    | _ => (classPQCUnknown, "insufficient evidence to classify from the available fields")

/-- The text the rules read. -/
def Finding.blob (cm : CaseMap) (f : Finding) : String :=
  toUpper cm (f.algorithm ++ " " ++ f.evidence ++ " " ++ f.title)

def classifyPQCWithReason (cm : CaseMap) (f : Finding) : PQCClassReason :=
  if f.pqcClass ≠ "" then
    { «class» := f.pqcClass, version := taxonomyVersion
      reason := "carried from the scanner record", action := pqcRecommendedAction f.pqcClass }
  else
    let blob := Finding.blob cm f
    let cl := QiskitProfile.classify cm f.algorithm f.keyLength
    let cl :=
      if cl.attackClass = .none ∧ f.algorithm = "" then QiskitProfile.classify cm blob f.keyLength
      else cl
    let result := classRules blob f.keyLength cl.attackClass
    { «class» := result.1, version := taxonomyVersion, reason := result.2
      action := pqcRecommendedAction result.1, attackClass := cl.attackClass.text }

def classifyPQC (cm : CaseMap) (f : Finding) : String := (classifyPQCWithReason cm f).class

end RivicQ.Intelligence.PQCClass

namespace RivicQ.Intelligence.Architecture

open RivicQ.Lib.GoStrings RivicQ.Lib.Tables RivicQ.Intelligence.Findings
open RivicQ.Quantum.QiskitProfile

structure Mitigation where
  algorithm : String
  attackClass : String := ""
  replaceWith : String := ""
  standard : String := ""
  priority : String

variable (cm : CaseMap)

def looksLikeSignature (alg : String) : Bool :=
  let u := toUpper cm alg
  if contains u "ECDSA" || contains u "ED25519" || contains u "DSA" then true
  else contains u "RSA" && (contains u "PSS" || contains u "SIG" || contains u "SHA")

/-- What is to be done about an algorithm of an attack class, if it has one. -/
def mitigation (f : Finding) : AttackClass → Option Mitigation
  | .shor =>
    let m : Mitigation :=
      { algorithm := f.algorithm, attackClass := AttackClass.text .shor
        priority := if f.keyLength > 0 ∧ f.keyLength < 2048 then "now" else "plan" }
    some <|
      if looksLikeSignature cm f.algorithm then
        { m with
          replaceWith := "ML-DSA-65 (hybrid with classical signatures during migration)"
          standard := "FIPS 204" }
      else
        { m with
          replaceWith := "ML-KEM-768 (hybrid with classical KEM/TLS during migration)"
          standard := "FIPS 203" }
  | .grover => some
    { algorithm := f.algorithm, attackClass := AttackClass.text .grover
      replaceWith := "AES-256 / SHA-384+ (Grover-sized symmetric)"
      standard := "SP 800-57 / BSI TR-02102", priority := "hygiene" }
  | .pqc => some
    { algorithm := f.algorithm, attackClass := AttackClass.text .pqc
      replaceWith := "Keep current NIST PQC algorithm; track parameter sets"
      standard := "FIPS 203/204/205", priority := "preferred" }
  | .none => none

/-- The attack class of a finding. -/
def attack (f : Finding) : AttackClass := (classify cm f.algorithm f.keyLength).attackClass

/-- The key that an entry is listed under. -/
def mitigationKey (f : Finding) : String :=
  toUpper cm f.algorithm ++ ":" ++ (attack cm f).text

/-- The loop over the findings, with the keys it has seen. -/
def mitigationLoop (seen : Table Bool) (out : List Mitigation) : List Finding → List Mitigation
  | [] => out
  | f :: fs =>
    if f.algorithm = "" then mitigationLoop seen out fs
    else if (seen.lookup (mitigationKey cm f)).getD false then mitigationLoop seen out fs
    else (mitigation cm f (attack cm f)).elim
      (mitigationLoop (seen.insert (mitigationKey cm f) true) out fs) fun m =>
        if (out ++ [m]).length ≥ 12 then out ++ [m]
        else mitigationLoop (seen.insert (mitigationKey cm f) true) (out ++ [m]) fs

def pqcMitigations (findings : List Finding) : List Mitigation := mitigationLoop cm ∅ [] findings

end RivicQ.Intelligence.Architecture

namespace RivicQ.Intelligence.Fingerprint

open RivicQ.Lib.GoStrings RivicQ.Lib.Groups RivicQ.Intelligence.Findings
open RivicQ.Intelligence.PQCClass

def scannerVersion : String := "rivicq-intelligence/1.0.0"

/-- The words of a text, as `strings.Fields` gives them. -/
def fields (s : String) : List String :=
  ((s.toList.splitOnP isSpace).filter (· ≠ [])).map String.ofList

/-- The bytes of a Go string. -/
def bytes (s : String) : List UInt8 := s.toUTF8.data.toList

variable (cm : CaseMap)

/-- The words of the evidence, cut after 160 bytes. -/
def compactEvidence (s : String) : List UInt8 :=
  (bytes (" ".intercalate (fields (toLower cm s)))).take 160

def fingerprintKey (f : Finding) : List UInt8 :=
  bytes ("|".intercalate [
    toLower cm (trimSpace f.scanner),
    toLower cm (trimSpace f.ruleID),
    toUpper cm (trimSpace f.algorithm),
    toString f.keyLength,
    trimSpace f.location,
    toString f.line,
    toUpper cm (trimSpace f.cve),
    trimSpace f.component]) ++ bytes "|" ++ compactEvidence cm f.evidence

def ruleIDFor (f : Finding) : String :=
  if f.ruleID ≠ "" then f.ruleID
  else
    let algo := toUpper cm (trimSpace (f.algorithm ++ " " ++ f.evidence ++ " " ++ f.title))
    if contains algo "MD5" then "crypto.md5"
    else if contains algo "SHA-1" || contains algo "SHA1" then "crypto.sha1"
    else if contains algo "RC4" then "crypto.rc4"
    else if contains algo "3DES" || contains algo "DES" && !contains algo "AES" then "crypto.3des"
    else if contains algo "TLS 1.0" || contains algo "TLS1.0" then "tls.version.1_0"
    else if contains algo "TLS 1.1" || contains algo "TLS1.1" then "tls.version.1_1"
    else if contains algo "RSA" then "crypto.rsa"
    else if contains algo "ECDSA" then "crypto.ecdsa"
    else if contains algo "ECDH" then "crypto.ecdh"
    else if contains algo "AES" then "crypto.aes"
    else if f.cve ≠ "" then "cve." ++ toLower cm f.cve
    else if f.scanner ≠ "" then "scanner." ++ toLower cm f.scanner
    else "crypto.unclassified"

/-- Stamp a finding; `digest` gives the SHA-256 of some bytes as hexadecimal text. -/
def finalizeFinding (digest : List UInt8 → String) (now : Time) (f : Finding) : Finding :=
  let ruleID := ruleIDFor cm f
  let labels :=
    if f.id ≠ "" && !hasPrefix f.id "rvq-" then f.labels.insert "instance_id" f.id else f.labels
  let fp := digest (fingerprintKey cm { f with ruleID })
  let id := "rvq-" ++ String.ofList (fp.toList.take 16)
  let f := { f with scannerVersion := scannerVersion, ruleID, labels, fingerprint := fp, id }
  let pqcClass := classifyPQC cm f
  let recommendedAction :=
    if f.recommendedAction = "" then pqcRecommendedAction pqcClass else f.recommendedAction
  let createdAt := if f.createdAt = 0 then now else f.createdAt
  let updatedAt := if f.updatedAt = 0 then createdAt else f.updatedAt
  let firstSeen := if f.firstSeen = 0 then createdAt else f.firstSeen
  let lastSeen := if f.lastSeen = 0 then updatedAt else f.lastSeen
  let status := if f.status = "" then "open" else f.status
  { f with
    pqcClass, recommendedAction, createdAt, updatedAt, firstSeen, lastSeen, status
    risk := { f.risk with recommendedAction } }

/-- A finding joins the one met before it under its fingerprint. -/
def mergeFinding (prev f : Finding) : Finding :=
  let earlier : Bool := f.firstSeen < prev.firstSeen
  let later : Bool := f.lastSeen > prev.lastSeen
  let worse : Bool := severityRank f.severity > severityRank prev.severity
  { prev with
    firstSeen := if earlier then f.firstSeen else prev.firstSeen
    createdAt := if earlier then f.firstSeen else prev.createdAt
    lastSeen := if later then f.lastSeen else prev.lastSeen
    updatedAt := if later then f.lastSeen else prev.updatedAt
    severity := if worse then f.severity else prev.severity
    risk := if worse then f.risk else prev.risk
    riskScore := if worse then f.riskScore else prev.riskScore
    kev := if f.kev then true else prev.kev }

/-- The findings without duplicates; `now` is what the clock shows at each one. -/
def dedupFindings (digest : List UInt8 → String) (now : Nat → Time) (fs : List Finding) :
    List Finding :=
  if fs = [] then fs
  else
    (group Finding.fingerprint mergeFinding
      (fs.zipIdx.map fun x => finalizeFinding cm digest (now x.2) x.1)).values

end RivicQ.Intelligence.Fingerprint
