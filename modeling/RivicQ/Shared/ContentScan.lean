import RivicQ.Intelligence.Contents
import RivicQ.Lib.ByteText
import RivicQ.Lib.Runes
import RivicQ.Shared.GitHubScans

namespace RivicQ.Shared.ContentScan

open RivicQ.Lib.GoStrings RivicQ.Lib.Bytes RivicQ.Lib.HostPorts RivicQ.Lib.Tables
open RivicQ.Lib.FilePaths RivicQ.Lib.Regexes RivicQ.Lib.Runes RivicQ.Lib.Runes.Pattern
open RivicQ.Lib.Regexes.Regex (seqs alts opt many plus times atLeast)
open RivicQ.Shared.GitHubScans

/-- What a finding says; its confidence is in hundredths. -/
structure Detail where
  id : String := ""
  fingerprint : String := ""
  ruleID : String
  confidence : Nat
  filePath : String
  lineNumber : Nat
  findingType : String
  algorithm : String
  keyLength : Nat := 0
  severity : String
  description : String
  remediation : String
  quantumSafe : Bool := false
  owasp : String
  cwe : String
  evidence : Bytes := []
  tool : String
  cve : String := ""
  compliance : List String := []

structure CryptoRule where
  re : Pattern
  ruleID : String
  algorithm : String
  findingType : String
  severity : String
  quantumSafe : Bool
  owasp : String
  cwe : String
  remediation : String
  confidence : Nat

structure SecretRule where
  re : Pattern
  ruleID : String
  kind : String
  severity : String
  remediation : String
  confidence : Nat

def cryptographicFailures : String := "A02:2021 Cryptographic Failures"

/-- A key size, one of those listed. -/
def sizes (ns : List String) : Pattern := alts (ns.map text)

def weakSizes : Pattern := sizes ["512", "768", "1024"]

def keySizeRe : Pattern :=
  alts [
    seqs [foldText "GenerateKey(", .star false (noneOf ")"), lit ',', many blank,
      .group 1 weakSizes, many blank, lit ')'],
    seqs [foldText "RSA.generate(", .group 2 weakSizes, lit ')'],
    seqs [foldText "key", opt (lit '_'), foldText "size", many blank, oneOf ":=", many blank,
      .group 3 weakSizes, wordBoundary],
    seqs [wordBoundary, foldText "RSA_KEY_", .group 4 (alts [foldText "SIZE", foldText "BITS"]),
      many blank, lit '=', many blank, .group 5 weakSizes, wordBoundary]]

def cryptoRules : List CryptoRule := [
  ⟨alts [foldText "crypto/md5", foldText "hashlib.md5",
      seqs [foldText "MessageDigest.getInstance(", oneOf "\"'", foldText "MD5"],
      foldText "md5.Sum("],
    "crypto.weak-hash.md5", "MD5", "WEAK_HASH", "HIGH", false, cryptographicFailures, "CWE-327",
    "Replace MD5 with SHA-256 or SHA-3; do not use MD5 for integrity or passwords.", 85⟩,
  ⟨alts [foldText "crypto/sha1", foldText "hashlib.sha1", foldText "sha1.Sum("],
    "crypto.weak-hash.sha1", "SHA-1", "WEAK_HASH", "HIGH", false, cryptographicFailures, "CWE-327",
    "Migrate SHA-1 to SHA-256 or SHA-3.", 85⟩,
  ⟨alts [foldText "des-ede3", foldText "DESede", foldText "triple-des", foldText "tripledes"],
    "crypto.weak-cipher.3des", "3DES", "WEAK_CIPHER", "CRITICAL", false, cryptographicFailures,
    "CWE-327", "Remove 3DES; use AES-256-GCM.", 80⟩,
  ⟨alts [foldText "arcfour", foldText "crypto/rc4",
      seqs [foldText "rc4.New", .group 1 (alts [foldText "Cipher", foldText "Stream"])],
      foldText "rc4-sha", foldText "RC4-MD5"],
    "crypto.weak-cipher.rc4", "RC4", "WEAK_CIPHER", "CRITICAL", false, cryptographicFailures,
    "CWE-327", "Disable RC4; use TLS 1.2+ with AEAD ciphers.", 80⟩,
  ⟨text "tls.VersionTLS10",
    "tls.version.1_0", "TLS 1.0", "WEAK_TLS", "HIGH", false, cryptographicFailures, "CWE-326",
    "Disable TLS 1.0; require TLS 1.2 or TLS 1.3.", 90⟩,
  ⟨text "tls.VersionTLS11",
    "tls.version.1_1", "TLS 1.1", "WEAK_TLS", "HIGH", false, cryptographicFailures, "CWE-326",
    "Disable TLS 1.1; require TLS 1.2 or TLS 1.3.", 90⟩,
  ⟨alts (["ml-kem", "ml_dsa", "ml-dsa", "ml_kem", "kyber", "dilithium", "liboqs", "pqcrypto"].map
      foldText),
    "crypto.pqc.library", "PQC", "PQC_LIBRARY", "INFO", true, cryptographicFailures, "CWE-327",
    "PQC library detected — verify it is used for production key exchange, not only imported.",
    60⟩,
  ⟨keySizeRe,
    "crypto.rsa.keysize.insufficient", "RSA", "WEAK_KEY_SIZE", "HIGH", false,
    cryptographicFailures, "CWE-326",
    "Regenerate RSA keys at ≥2048 bits; prefer ≥3072 and plan ML-KEM hybrid migration.", 85⟩,
  ⟨alts [foldText "crypto/rsa", foldText "RSA.generate", foldText "rsa.GenerateKey",
      foldText "RSA_PKCS1", seqs [foldText "algorithm:", many blank, oneOf "'\"",
        foldText "RS256"]],
    "crypto.import.rsa", "RSA", "CRYPTO_IMPORT", "MEDIUM", false, cryptographicFailures, "CWE-327",
    "Review RSA key sizes (prefer ≥3072) and plan ML-KEM / ML-DSA hybrid migration.", 50⟩,
  ⟨alts [foldText "crypto/ecdsa", foldText "EC_KEY", foldText "ecdsa.GenerateKey"],
    "crypto.import.ecdsa", "ECDSA", "CRYPTO_IMPORT", "MEDIUM", false, cryptographicFailures,
    "CWE-327", "ECDSA is not quantum-safe; plan ML-DSA migration.", 50⟩,
  ⟨alts [foldText "jwt.sign", foldText "jsonwebtoken", foldText "jose.JWT",
      seqs [foldText "import", plus blank, foldText "jwt", wordBoundary],
      seqs [wordBoundary, foldText "jwt.", .group 1 (alts [foldText "encode", foldText "decode"]),
        lit '(']],
    "crypto.import.jwt", "JWT", "CRYPTO_IMPORT", "LOW", false, cryptographicFailures, "CWE-347",
    "Prefer EdDSA or PQC-hybrid JWT signing; rotate secrets.", 45⟩]

def rsaKeyBits : Pattern := sizes ["1024", "2048", "3072", "4096"]

def rsaKeyBitsRe : Pattern :=
  alts [
    seqs [foldText "GenerateKey(", .star false (noneOf ")"), lit ',', many blank,
      .group 1 rsaKeyBits, many blank, lit ')'],
    seqs [foldText "RSA.generate(", .group 2 rsaKeyBits, lit ')']]

variable (cm : CaseMap)

/-- The number that the first of some groups holds that holds one. -/
def firstNumber (groups : List (List Rune)) : Nat :=
  (groups.findSome? fun g =>
    match atoi (String.ofList (chars g)) with
    | (n, true) => some n.toNat
    | (_, false) => none).getD 0

def extractKeyLength (algorithm : String) (content : Bytes) : Nat :=
  if !equalFold cm algorithm "RSA" then 0
  else
    match find rsaKeyBitsRe (runes content) with
    | none => 0
    | some m => firstNumber [m.group 1, m.group 2]

def awsAccessKey : SecretRule :=
  ⟨seqs [text "AKIA", times 16 (sym fun c => c.isDigit || c.isUpper)],
    "secret.aws-access-key", "aws_access_key", "CRITICAL",
    "Rotate the AWS key; store credentials in a secret manager.", 90⟩

def githubPAT : SecretRule :=
  ⟨seqs [text "ghp_", atLeast 20 (sym fun c => c.isAlphanum)],
    "secret.github-pat", "github_token", "CRITICAL",
    "Revoke the GitHub PAT and use a GitHub App with least privilege.", 90⟩

def privateKey : SecretRule :=
  ⟨seqs [text "-----BEGIN ",
      opt (.group 1 (alts [text "RSA ", text "OPENSSH ", text "EC ", text "OPENSSH "])),
      text "PRIVATE KEY-----"],
    "secret.private-key", "private_key", "CRITICAL",
    "Remove private keys from source control; rotate the key pair.", 95⟩

def genericAssignment : SecretRule :=
  ⟨seqs [.group 1 (alts [seqs [foldText "api", opt (oneOf "_-"), foldText "key"],
        foldText "secret", foldText "password", foldText "token"]),
      many blank, oneOf "=:", many blank, oneOf "'\"", atLeast 12 (noneOf "'\""), oneOf "'\""],
    "secret.generic-assignment", "generic_secret", "HIGH",
    "Move secrets to environment variables or a vault; rotate exposed values.", 55⟩

def secretRules : List SecretRule := [awsAccessKey, githubPAT, privateKey, genericAssignment]

/-- The line in which what follows a text begins. -/
def lineOf (before : Bytes) : Nat := before.count 0x0a + 1

def maskSecret (s : Bytes) : Bytes :=
  if s.length ≤ 8 then List.replicate 8 0x2a
  else s.take 4 ++ List.replicate (s.length - 8) 0x2a ++ s.drop (s.length - 4)

/-- Marks of a placeholder, in lower case. -/
def placeholders : List String :=
  ["$\x7b\x7b", "secrets.", "replace_with", "changeme", "not-for-production", "placeholder",
    "example", "your-", "<path", "xxxx"]

def isPlaceholderSecret (s : List Rune) : Bool :=
  let l := (chars s).map cm.lower
  placeholders.any fun p => p.toList <:+: l

/-- `strings.Index`: the text before the first occurrence. -/
def index (sub : Bytes) : Bytes → Option Bytes
  | [] => if sub = [] then some [] else none
  | b :: s => if sub <+: b :: s then some [] else (index sub s).map (b :: ·)

def documentationExtensions : List String := [".md", ".markdown", ".rst", ".txt", ".adoc"]

def isDocumentationPath (path : String) : Bool :=
  documentationExtensions.contains (toLower cm (ext path))

def cryptoFinding (file : RepoFile) (rule : CryptoRule) : Option Detail :=
  if isDocumentationPath cm file.path then none
  else
    match find rule.re (runes file.content) with
    | none => none
    | some m =>
      some {
        ruleID := rule.ruleID
        confidence := rule.confidence
        filePath := file.path
        lineNumber := lineOf (unread m.before)
        findingType := rule.findingType
        algorithm := rule.algorithm
        keyLength := extractKeyLength cm rule.algorithm file.content
        severity := rule.severity
        description := rule.algorithm ++ " usage in " ++ file.path
        remediation := rule.remediation
        quantumSafe := rule.quantumSafe
        owasp := rule.owasp
        cwe := rule.cwe
        evidence := maskSecret (RivicQ.Lib.ByteText.trimSpace
          (unread m.text ++ (unread m.after).take 40))
        tool := "rivicq-content-analyzer" }

def secretFinding (file : RepoFile) (rule : SecretRule) : Option Detail :=
  match find rule.re (runes file.content) with
  | none => none
  | some m =>
    if isPlaceholderSecret cm m.text then none
    else
      some {
        ruleID := rule.ruleID
        confidence := rule.confidence
        filePath := file.path
        lineNumber := lineOf (unread m.before)
        findingType := "SECRET"
        algorithm := rule.kind
        severity := rule.severity
        description := "Possible " ++ rule.kind ++ " in " ++ file.path
        remediation := rule.remediation
        quantumSafe := true
        owasp := "A07:2021 Identification and Authentication Failures"
        cwe := "CWE-798"
        evidence := maskSecret (unread m.text)
        tool := "rivicq-secret-detector" }

structure GHComponent where
  name : String
  version : String
  type : String

/-- The `dependencies` of a `package.json`, as `json.Unmarshal` reads them where it can. -/
abbrev Unmarshal := Bytes → Option (Table String)

variable (unmarshal : Unmarshal)

def parseNPMDependencies (content : Bytes) : List GHComponent :=
  match unmarshal content with
  | none => []
  | some deps => deps.entries.map fun e => ⟨e.1, trimPrefix e.2 "^", "npm"⟩

def knownAdvisories : List (String × String) := [("npm:lodash:4.17.20", "CVE-2021-23337")]

def scaAdvisory (filePath : String) (c : GHComponent) : Option Detail :=
  (knownAdvisories.lookup (c.type ++ ":" ++ c.name ++ ":" ++ c.version)).map fun cve => {
    ruleID := "sca.advisory." ++ toLower cm cve
    confidence := 95
    filePath
    lineNumber := 1
    findingType := "SCA"
    algorithm := c.name
    severity := "HIGH"
    description := c.name ++ "@" ++ c.version ++ " matches published advisory " ++ cve
    remediation := "Upgrade " ++ c.name ++
      " to a patched release. Advisory is tied to this exact version."
    owasp := "A06:2021 Vulnerable and Outdated Components"
    cwe := "CWE-1035"
    cve
    tool := "rivicq-sca-overlay" }

def scaAdvisories (filePath : String) (comps : List GHComponent) : List Detail :=
  comps.filterMap (scaAdvisory cm filePath)

/-- A text that is looked for as it is, and the finding that it makes. -/
def marked (file : RepoFile) (mark : String) (detail : Detail) : Option Detail :=
  (index (ascii mark) file.content).map fun before =>
    { detail with filePath := file.path, lineNumber := lineOf before }

def runsAsRoot : Detail where
  ruleID := "container.runs-as-root"
  confidence := 90
  filePath := ""
  lineNumber := 1
  findingType := "CONTAINER"
  algorithm := "docker"
  severity := "HIGH"
  description := "Container runs as root"
  remediation := "Add a non-root USER instruction."
  owasp := "A05:2021 Security Misconfiguration"
  cwe := "CWE-250"
  tool := "rivicq-docker-analyzer"

def exposesSSH : Detail where
  ruleID := "container.exposes-ssh"
  confidence := 85
  filePath := ""
  lineNumber := 1
  findingType := "CONTAINER"
  algorithm := "docker"
  severity := "MEDIUM"
  description := "Dockerfile exposes SSH port 22"
  remediation := "Do not expose SSH from application images."
  owasp := "A05:2021 Security Misconfiguration"
  cwe := "CWE-668"
  tool := "rivicq-docker-analyzer"

def openCIDR : Detail where
  ruleID := "iac.open-cidr"
  confidence := 80
  filePath := ""
  lineNumber := 1
  findingType := "IAC"
  algorithm := "terraform"
  severity := "HIGH"
  description := "Security group allows 0.0.0.0/0"
  remediation := "Restrict CIDR to known networks."
  owasp := "A01:2021 Broken Access Control"
  cwe := "CWE-284"
  tool := "rivicq-iac-analyzer"

def publicReadACL : Detail where
  ruleID := "iac.public-read-acl"
  confidence := 85
  filePath := ""
  lineNumber := 1
  findingType := "IAC"
  algorithm := "terraform"
  severity := "CRITICAL"
  description := "Object storage ACL is public-read"
  remediation := "Use private ACLs and bucket policies."
  owasp := "A01:2021 Broken Access Control"
  cwe := "CWE-732"
  tool := "rivicq-iac-analyzer"

def specDiscovered : Detail where
  ruleID := "api.spec-discovered"
  confidence := 90
  filePath := ""
  lineNumber := 1
  findingType := "API"
  algorithm := "openapi"
  severity := "INFO"
  description := "OpenAPI/Swagger specification discovered"
  remediation := "Review operations against OWASP API Security Top 10; this is discovery, not a " ++
    "complete API test."
  owasp := "API1:2023 Broken Object Level Authorization"
  cwe := "CWE-285"
  tool := "rivicq-api-analyzer"

def missingSecuritySchemes : Detail where
  ruleID := "api.missing-security-schemes"
  confidence := 70
  filePath := ""
  lineNumber := 1
  findingType := "API"
  algorithm := "openapi"
  severity := "HIGH"
  description := "API specification does not declare security schemes"
  remediation := "Define securitySchemes (OAuth2, OIDC, or mTLS) and apply them to operations."
  owasp := "API2:2023 Broken Authentication"
  cwe := "CWE-306"
  tool := "rivicq-api-analyzer"

def isInfrastructure (path : String) : Bool :=
  hasSuffix (toLower cm (base path)) ".tf" || contains path "terraform"

def isSpecification (path : String) : Bool :=
  contains (toLower cm (base path)) "openapi" || contains (toLower cm (base path)) "swagger"

def includes (content : Bytes) (mark : String) : Bool := (index (ascii mark) content).isSome

def manifestFindings (file : RepoFile) : List Detail :=
  if toLower cm (base file.path) = "package.json" then
    scaAdvisories cm file.path (parseNPMDependencies unmarshal file.content)
  else []

def containerFindings (file : RepoFile) : List Detail :=
  if toLower cm (base file.path) = "dockerfile" then
    (marked file "USER root" runsAsRoot).toList ++ (marked file "EXPOSE 22" exposesSSH).toList
  else []

def infrastructureFindings (file : RepoFile) : List Detail :=
  if isInfrastructure cm file.path then
    (marked file "0.0.0.0/0" openCIDR).toList ++ (marked file "public-read" publicReadACL).toList
  else []

def specificationFindings (file : RepoFile) : List Detail :=
  if isSpecification cm file.path then
    { specDiscovered with filePath := file.path } ::
      if !includes file.content "securitySchemes" && !includes file.content "security:" then
        [{ missingSecuritySchemes with filePath := file.path }]
      else []
  else []

/-- What is found in a file, by the rules in their order. -/
def fileFindings (file : RepoFile) : List Detail :=
  cryptoRules.filterMap (cryptoFinding cm file) ++ secretRules.filterMap (secretFinding cm file) ++
    manifestFindings cm unmarshal file ++ containerFindings cm file ++
    infrastructureFindings cm file ++ specificationFindings cm file

def appendStage (stages : List GHScanStage) (id label : String) : List GHScanStage :=
  if stages.any (·.id == id) then stages else stages ++ [⟨id, label, "completed"⟩]

def fileStages (file : RepoFile) (stages : List GHScanStage) : List GHScanStage :=
  let base := toLower cm (base file.path)
  let stages :=
    if base = "package.json" ∨ base = "go.mod" ∨ base = "requirements.txt" then
      appendStage stages "sca" "Running SCA"
    else stages
  let stages :=
    if base = "dockerfile" then appendStage stages "container" "Analyzing containers" else stages
  let stages :=
    if isInfrastructure cm file.path then appendStage stages "iac" "Analyzing IaC" else stages
  if isSpecification cm file.path then appendStage stages "api" "Analyzing APIs" else stages

def stages (files : List RepoFile) : List GHScanStage :=
  let first : List GHScanStage :=
    [⟨"discovering", "Discovering files", "completed"⟩,
      ⟨"languages", "Detecting languages", "completed"⟩]
  [("sast", "Running SAST"), ("secrets", "Detecting secrets"), ("sbom", "Generating SBOM"),
    ("cbom", "Generating CBOM"), ("pqc", "Calculating PQC readiness"), ("owasp", "Mapping OWASP"),
    ("compliance", "Mapping compliance controls"), ("completed", "Scan complete")].foldl
    (fun stages s => appendStage stages s.1 s.2)
    (files.foldl (fun stages file => fileStages cm file stages) first)

def complianceFor (f : Detail) : List String :=
  match f.findingType with
  | "SECRET" => ["NIST 800-53 IA-5", "ISO 27001 A.9.4", "CRA Annex I"]
  | "WEAK_HASH" | "WEAK_CIPHER" | "CRYPTO_IMPORT" | "PQC_LIBRARY" | "WEAK_TLS" =>
    ["NIST 800-57", "BSI TR-02102", "PQC migration"]
  | "IAC" => ["CIS", "NIST 800-53 AC-3", "NIS2 Art. 21"]
  | "CONTAINER" => ["CIS Docker", "NIST 800-53 CM-6"]
  | "SCA" => ["CRA Annex I", "NIST SSDF PO.3"]
  | "API" => ["OWASP API Security", "NIST 800-53 AC-3"]
  | _ => []

/-- What the fingerprint of a finding is the digest of. -/
def fingerprintText (f : Detail) : String :=
  "|".intercalate [
    toLower cm f.ruleID,
    toLower cm f.filePath,
    toUpper cm f.findingType,
    toUpper cm f.algorithm,
    toUpper cm f.cve,
    toString f.keyLength]

/-- The SHA-256 of a text in hexadecimal. -/
abbrev Digest := String → String

variable (digest : Digest)

def findingFingerprint (f : Detail) : String := digest (fingerprintText cm f)

def findingKey (f : Detail) : String :=
  if f.fingerprint ≠ "" then f.fingerprint else findingFingerprint cm digest f

def stamp (f : Detail) : Detail :=
  let compliance := if f.compliance = [] then complianceFor f else f.compliance
  let confidence := if f.confidence = 0 then 50 else f.confidence
  let fingerprint := findingFingerprint cm digest f
  { f with
    compliance, confidence, fingerprint
    id := "rvq-" ++ String.ofList (fingerprint.toList.take 16) }

def precedes (a b : Detail) : Bool :=
  if a.filePath ≠ b.filePath then a.filePath < b.filePath
  else if a.lineNumber ≠ b.lineNumber then a.lineNumber < b.lineNumber
  else if a.ruleID ≠ b.ruleID then a.ruleID < b.ruleID
  else a.algorithm < b.algorithm

/-- A stable sort. -/
def sortFindings (fs : List Detail) : List Detail := fs.mergeSort fun a b => !precedes b a

def detect (files : List RepoFile) : List Detail :=
  sortFindings ((files.flatMap (fileFindings cm unmarshal)).map (stamp cm digest))

/-- The counts of a scan. -/
structure GHSummary where
  totalFindings : Nat
  critical : Nat
  high : Nat
  medium : Nat
  low : Nat
  quantumUnsafe : Nat

def summarizeFindings (fs : List Detail) : GHSummary where
  totalFindings := fs.length
  critical := fs.countP fun f => toUpper cm f.severity = "CRITICAL"
  high := fs.countP fun f => toUpper cm f.severity = "HIGH"
  medium := fs.countP fun f => toUpper cm f.severity = "MEDIUM"
  low := fs.countP fun f => toUpper cm f.severity = "LOW"
  quantumUnsafe := fs.countP fun f => !f.quantumSafe

/-- The integer next to a fraction, and of two the even one. -/
def roundEven (a b : Nat) : Nat :=
  let q := a / b
  if 2 * (a % b) < b ∨ 2 * (a % b) = b ∧ q % 2 = 0 then q else q + 1

/-- The float64 next to a fraction: a numerator of 53 bits, over a power of two. -/
def float64 (a b : Nat) : Nat × Nat :=
  if a = 0 then (0, 0)
  else
    let e := 52 + Nat.log2 b - Nat.log2 a
    let e := if a * 2 ^ e < 2 ^ 52 * b then e + 1 else e
    (roundEven (a * 2 ^ e) b, e)

def isCrypto (f : Detail) : Bool :=
  ["CRYPTO_IMPORT", "WEAK_HASH", "WEAK_CIPHER", "PQC_LIBRARY"].contains f.findingType

/-- The share of quantum-safe findings in percent, as float64 has it, without its fraction. -/
def pqcReadiness (fs : List Detail) : Nat :=
  let crypto := fs.countP isCrypto
  let safe := fs.countP fun f => isCrypto f && f.quantumSafe
  if crypto = 0 then 100
  else
    let ratio := float64 safe crypto
    let percent := float64 (ratio.1 * 100) (2 ^ ratio.2)
    percent.1 / 2 ^ percent.2

def languageOf (p : String) : String :=
  match toLower cm (ext p) with
  | ".go" => "Go"
  | ".py" => "Python"
  | ".js" | ".jsx" => "JavaScript"
  | ".ts" | ".tsx" => "TypeScript"
  | ".java" => "Java"
  | ".rs" => "Rust"
  | ".tf" => "HCL"
  | ".json" => "JSON"
  | _ => if toLower cm (base p) = "dockerfile" then "Dockerfile" else trimPrefix (ext p) "."

/-- The languages of some files, in the order of their names. -/
def languages (files : List RepoFile) : List String :=
  ((files.map fun file => languageOf cm file.path).filter (· ≠ "")).dedup.mergeSort
    fun a b => a ≤ b

/-- The rules of the program, over the files that are built into it. -/
def contentRules (loadDemoRepoFiles : List RepoFile) : Rules Detail where
  loadDemoRepoFiles
  detect := detect cm unmarshal digest
  stages := stages cm
  findingKey := findingKey cm digest

/-- The findings of a scan, and what is counted in them and in the files. -/
structure Analysis where
  result : GHScanResult Detail
  summary : GHSummary
  languages : List String
  pqcReadiness : Nat

def analyze (loadDemoRepoFiles : List RepoFile) (id repo : String) (files : List RepoFile)
    (demo : Bool) : Analysis where
  result := analyzeRepositoryFiles (contentRules cm unmarshal digest loadDemoRepoFiles) id repo
    files demo
  summary := summarizeFindings cm (detect cm unmarshal digest files)
  languages := languages cm files
  pqcReadiness := pqcReadiness (detect cm unmarshal digest files)

variable {cm unmarshal digest} {file : RepoFile} {files : List RepoFile} {f d : Detail}

theorem mem_detect : d ∈ detect cm unmarshal digest files ↔
    ∃ file ∈ files, ∃ f ∈ fileFindings cm unmarshal file, stamp cm digest f = d := by
  simp only [detect, sortFindings, List.mem_mergeSort, List.mem_map, List.mem_flatMap]
  constructor
  · rintro ⟨f, ⟨file, hfile, hf⟩, rfl⟩
    exact ⟨file, hfile, f, hf, rfl⟩
  · rintro ⟨file, hfile, f, hf, rfl⟩
    exact ⟨f, ⟨file, hfile, hf⟩, rfl⟩

theorem mem_fileFindings : f ∈ fileFindings cm unmarshal file ↔
    (∃ rule ∈ cryptoRules, cryptoFinding cm file rule = some f) ∨
    (∃ rule ∈ secretRules, secretFinding cm file rule = some f) ∨
    f ∈ manifestFindings cm unmarshal file ∨ f ∈ containerFindings cm file ∨
    f ∈ infrastructureFindings cm file ∨ f ∈ specificationFindings cm file := by
  simp only [fileFindings, List.mem_append, List.mem_filterMap, or_assoc]

theorem cryptoFinding_eq_some {rule : CryptoRule} (h : cryptoFinding cm file rule = some f) :
    isDocumentationPath cm file.path = false ∧ find rule.re (runes file.content) ≠ none ∧
      f.filePath = file.path ∧ f.ruleID = rule.ruleID ∧ f.findingType = rule.findingType ∧
      f.algorithm = rule.algorithm ∧ f.cve = "" ∧
      f.keyLength = extractKeyLength cm rule.algorithm file.content := by
  unfold cryptoFinding at h
  split at h
  · cases h
  · next hpath =>
    split at h
    · cases h
    · next m hm =>
      obtain rfl := Option.some.inj h
      exact ⟨Bool.eq_false_iff.mpr hpath, hm ▸ Option.some_ne_none m, rfl, rfl, rfl, rfl, rfl, rfl⟩

theorem secretFinding_eq_some {rule : SecretRule} (h : secretFinding cm file rule = some f) :
    (∃ m, find rule.re (runes file.content) = some m ∧ isPlaceholderSecret cm m.text = false) ∧
      f.filePath = file.path ∧ f.ruleID = rule.ruleID ∧ f.findingType = "SECRET" ∧
      f.algorithm = rule.kind ∧ f.cve = "" ∧ f.keyLength = 0 := by
  unfold secretFinding at h
  split at h
  · cases h
  · next m hm =>
    split at h
    · cases h
    · next hgenuine =>
      obtain rfl := Option.some.inj h
      exact ⟨⟨m, hm, Bool.eq_false_iff.mpr hgenuine⟩, rfl, rfl, rfl, rfl, rfl, rfl⟩

theorem mem_manifestFindings (h : f ∈ manifestFindings cm unmarshal file) :
    toLower cm (base file.path) = "package.json" ∧
      ∃ c ∈ parseNPMDependencies unmarshal file.content, scaAdvisory cm file.path c = some f := by
  unfold manifestFindings at h
  split at h
  · next hbase => exact ⟨hbase, List.mem_filterMap.mp h⟩
  · cases h

theorem scaAdvisory_eq_some {path : String} {c : GHComponent}
    (h : scaAdvisory cm path c = some f) :
    ∃ cve, knownAdvisories.lookup (c.type ++ ":" ++ c.name ++ ":" ++ c.version) = some cve ∧
      f.filePath = path ∧ f.ruleID = "sca.advisory." ++ toLower cm cve ∧ f.findingType = "SCA" ∧
      f.algorithm = c.name ∧ f.cve = cve ∧ f.keyLength = 0 := by
  obtain ⟨cve, hcve, rfl⟩ := Option.map_eq_some_iff.mp h
  exact ⟨cve, hcve, rfl, rfl, rfl, rfl, rfl, rfl⟩

theorem marked_eq_some {mark : String} (h : marked file mark d = some f) :
    includes file.content mark = true ∧ f.filePath = file.path ∧ f.ruleID = d.ruleID ∧
      f.findingType = d.findingType ∧ f.algorithm = d.algorithm ∧ f.cve = d.cve ∧
      f.keyLength = d.keyLength := by
  obtain ⟨before, hbefore, rfl⟩ := Option.map_eq_some_iff.mp h
  exact ⟨Option.isSome_iff_exists.mpr ⟨before, hbefore⟩, rfl, rfl, rfl, rfl, rfl, rfl⟩

theorem mem_containerFindings (h : f ∈ containerFindings cm file) :
    toLower cm (base file.path) = "dockerfile" ∧
      (marked file "USER root" runsAsRoot = some f ∨
        marked file "EXPOSE 22" exposesSSH = some f) := by
  unfold containerFindings at h
  split at h
  · next hbase =>
    rw [List.mem_append, Option.mem_toList, Option.mem_toList] at h
    exact ⟨hbase, h⟩
  · cases h

theorem mem_infrastructureFindings (h : f ∈ infrastructureFindings cm file) :
    isInfrastructure cm file.path = true ∧
      (marked file "0.0.0.0/0" openCIDR = some f ∨
        marked file "public-read" publicReadACL = some f) := by
  unfold infrastructureFindings at h
  split at h
  · next hpath =>
    rw [List.mem_append, Option.mem_toList, Option.mem_toList] at h
    exact ⟨hpath, h⟩
  · cases h

theorem mem_specificationFindings (h : f ∈ specificationFindings cm file) :
    isSpecification cm file.path = true ∧
      (f = { specDiscovered with filePath := file.path } ∨
        (includes file.content "securitySchemes" = false ∧
          includes file.content "security:" = false) ∧
          f = { missingSecuritySchemes with filePath := file.path }) := by
  unfold specificationFindings at h
  split at h
  · next hpath =>
    refine ⟨hpath, ?_⟩
    obtain rfl | h := List.mem_cons.mp h
    · exact .inl rfl
    · split at h
      · next hmissing =>
        rw [Bool.and_eq_true, Bool.not_eq_true', Bool.not_eq_true'] at hmissing
        exact .inr ⟨hmissing, List.mem_singleton.mp h⟩
      · cases h
  · cases h

/-- The findings that only the name of a file and a mark in it lead to. -/
def markedDetails : List Detail :=
  [runsAsRoot, exposesSSH, openCIDR, publicReadACL, specDiscovered, missingSecuritySchemes]

/-- A finding is that of a rule, of an advisory or of a mark. -/
theorem fileFindings_cases (h : f ∈ fileFindings cm unmarshal file) :
    (∃ rule ∈ cryptoRules, cryptoFinding cm file rule = some f) ∨
    (∃ rule ∈ secretRules, secretFinding cm file rule = some f) ∨
    f ∈ manifestFindings cm unmarshal file ∨
    ∃ d ∈ markedDetails, f.filePath = file.path ∧ f.findingType = d.findingType ∧
      f.algorithm = d.algorithm := by
  have hmarked : ∀ {mark d}, marked file mark d = some f → d ∈ markedDetails →
      ∃ d ∈ markedDetails, f.filePath = file.path ∧ f.findingType = d.findingType ∧
        f.algorithm = d.algorithm := by
    intro mark d hf hd
    obtain ⟨-, hpath, -, htype, halgorithm, -⟩ := marked_eq_some hf
    exact ⟨d, hd, hpath, htype, halgorithm⟩
  obtain hf | hf | hf | hf | hf | hf := mem_fileFindings.mp h
  · exact .inl hf
  · exact .inr (.inl hf)
  · exact .inr (.inr (.inl hf))
  · obtain ⟨-, hf | hf⟩ := mem_containerFindings hf
    · exact .inr (.inr (.inr (hmarked hf (by simp [markedDetails]))))
    · exact .inr (.inr (.inr (hmarked hf (by simp [markedDetails]))))
  · obtain ⟨-, hf | hf⟩ := mem_infrastructureFindings hf
    · exact .inr (.inr (.inr (hmarked hf (by simp [markedDetails]))))
    · exact .inr (.inr (.inr (hmarked hf (by simp [markedDetails]))))
  · obtain ⟨-, rfl | ⟨-, rfl⟩⟩ := mem_specificationFindings hf
    · exact .inr (.inr (.inr ⟨specDiscovered, by simp [markedDetails], rfl, rfl, rfl⟩))
    · exact .inr (.inr (.inr ⟨missingSecuritySchemes, by simp [markedDetails], rfl, rfl, rfl⟩))

end RivicQ.Shared.ContentScan

namespace RivicQ.Shared.ContentIntelligence

open RivicQ.Lib.GoStrings RivicQ.Lib.Runes RivicQ.Intelligence.Findings
open RivicQ.Intelligence.Contents RivicQ.Shared.GitHubScans RivicQ.Shared.ContentScan

/-- A finding for the policies, with what of its evidence is no UTF-8 read as they read it. -/
def toContentFinding (f : Detail) : ContentFinding where
  id := f.id
  ruleID := f.ruleID
  fingerprint := f.fingerprint
  filePath := f.filePath
  findingType := f.findingType
  algorithm := f.algorithm
  severity := f.severity
  description := f.description
  evidence := String.ofList (chars (runes f.evidence))
  tool := f.tool
  cve := f.cve
  line := f.lineNumber
  keyLength := f.keyLength
  quantumSafe := f.quantumSafe
  compliance := f.compliance

/-- The findings of a scan as the policies see them; `now` is what the clock shows at each. -/
def contentFindings (cm : CaseMap) (digest : List UInt8 → String) (now : Nat → Time)
    (result : GHScanResult Detail) : List Finding :=
  result.findings.zipIdx.map fun x =>
    fromContent cm digest (now x.2) (toContentFinding x.1.detail)

theorem mem_contentFindings {cm : CaseMap} {digest : List UInt8 → String} {now : Nat → Time}
    {result : GHScanResult Detail} {f : Finding} :
    f ∈ contentFindings cm digest now result ↔ ∃ n g, result.findings[n]? = some g ∧
      fromContent cm digest (now n) (toContentFinding g.detail) = f := by
  unfold contentFindings
  rw [List.mem_map]
  constructor
  · rintro ⟨⟨g, n⟩, hmem, rfl⟩
    exact ⟨n, g, List.mem_zipIdx_iff_getElem?.mp hmem, rfl⟩
  · rintro ⟨n, g, hg, rfl⟩
    exact ⟨(g, n), List.mem_zipIdx_iff_getElem?.mpr hg, rfl⟩

end RivicQ.Shared.ContentIntelligence
