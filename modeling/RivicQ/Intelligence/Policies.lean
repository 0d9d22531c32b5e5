import RivicQ.Intelligence.Findings

namespace RivicQ.Intelligence.Policies

open RivicQ.Lib.GoStrings RivicQ.Intelligence.Findings

inductive Action where
  | block
  | warn
  | allow
  | inform
  deriving DecidableEq

def Action.text : Action → String
  | .block => "BLOCK"
  | .warn => "WARN"
  | .allow => "ALLOW"
  | .inform => "INFORM"

/-- A policy; one without a matcher matches nothing. -/
structure Policy where
  id : String
  name : String
  action : Action
  description : String
  «match» : Option (Finding → Bool)

structure PolicyHit where
  policyID : String
  policyName : String
  action : Action
  findingID : String
  title : String
  location : String
  description : String

structure GateResult where
  passed : Bool
  failed : Bool := false
  action : Action
  decision : String := ""
  blocked : Nat := 0
  warned : Nat := 0
  hits : List PolicyHit := []
  reasons : List String := []
  warnings : List String := []

/-- The case tables and the path separator of the machine the scanner runs on. -/
structure Platform where
  cases : CaseMap
  separator : Char

variable (pl : Platform)

def matchRSA (f : Finding) : Bool :=
  let a := toUpper pl.cases (f.algorithm ++ f.evidence)
  contains a "RSA" && decide (f.keyLength > 0) && decide (f.keyLength < 2048)

def matchLegacyHash (f : Finding) : Bool :=
  let a := toUpper pl.cases (f.algorithm ++ " " ++ f.evidence ++ " " ++ f.location)
  contains a "MD5" || contains a "SHA-1" || contains a "SHA1"

def matchTLS (f : Finding) : Bool :=
  let a := toUpper pl.cases (f.algorithm ++ " " ++ f.evidence ++ " " ++ f.findingLabel)
  contains a "TLS 1.0" || contains a "TLS1.0" || contains a "TLS 1.1"

def matchCiphers (f : Finding) : Bool :=
  let a := toUpper pl.cases (f.algorithm ++ " " ++ f.evidence)
  contains a "3DES" || contains a "RC4"

def matchKEV (f : Finding) : Bool := f.kev && f.cve ≠ ""

def matchAuth (f : Finding) : Bool :=
  if f.quantumSafe then false
  else
    let a := toUpper pl.cases f.algorithm
    let usage := toLower pl.cases f.usage
    let auth := contains usage "auth" || contains usage "signature" || contains usage "transport"
    auth && (contains a "RSA" || contains a "ECDSA" || contains a "ECDH")

def matchSecrets (f : Finding) : Bool :=
  let a := toLower pl.cases (f.algorithm ++ " " ++ f.evidence ++ " " ++ f.component)
  contains a "aws_access" || contains a "github_token" || contains a "private_key" ||
    contains a "akia" || (contains a "begin " && contains a "private")

def matchGeneric (f : Finding) : Bool :=
  let a := toLower pl.cases (f.algorithm ++ " " ++ f.usage)
  contains a "generic_secret" || contains a "credential material"

def defaultPolicies : List Policy :=
  [{ id := "crypto-rsa-min-2048", name := "RSA key length >= 2048", action := .block
     description := "BLOCK if RSA modulus is below 2048 bits."
     «match» := some (matchRSA pl) },
   { id := "crypto-legacy-hash", name := "No MD5 or SHA-1 for security functions", action := .block
     description := "BLOCK if MD5 or SHA-1 is used as a cryptographic hash/signature."
     «match» := some (matchLegacyHash pl) },
   { id := "crypto-tls-min-1.2", name := "TLS 1.2 minimum", action := .block
     description := "BLOCK if TLS below 1.2 is negotiated or configured."
     «match» := some (matchTLS pl) },
   { id := "crypto-3des-rc4", name := "No 3DES or RC4", action := .block
     description := "BLOCK broken ciphers 3DES and RC4."
     «match» := some (matchCiphers pl) },
   { id := "vuln-kev-critical", name := "CISA KEV + critical CVE", action := .block
     description := "BLOCK when a finding maps to a CISA Known Exploited Vulnerability."
     «match» := some matchKEV },
   { id := "pqc-warn-auth", name := "PQC migration warning for auth crypto", action := .warn
     description := "WARN if RSA/ECC is used for authentication without a PQC-ready mark."
     «match» := some (matchAuth pl) },
   { id := "secrets-material", name := "High-confidence secret material", action := .block
     description :=
       "BLOCK if AWS keys, GitHub PATs, or private keys are present outside fixtures."
     «match» := some (matchSecrets pl) },
   { id := "secrets-generic", name := "Generic secret pattern", action := .warn
     description := "WARN on generic password/token assignments " ++
       "(placeholders are ignored at detection time)."
     «match» := some (matchGeneric pl) }]

/-- `filepath.ToSlash`. -/
def toSlash (path : String) : String :=
  if pl.separator = '/' then path
  else String.ofList (path.toList.map fun c => if c = pl.separator then '/' else c)

def defaultExcludes : List String :=
  ["testdata", "fixtures", "node_modules", "vendor", "web/build", ".git", "dist", "coverage"]

def excludedPath (loc : String) : Bool :=
  if loc = "" then false
  else
    let norm := toSlash pl (toLower pl.cases loc)
    defaultExcludes.any fun ex =>
      contains norm ("/" ++ ex ++ "/") || contains norm ("/" ++ ex) || hasPrefix norm (ex ++ "/")

def Policy.matches (p : Policy) (f : Finding) : Bool := p.match.any fun m => m f

def policyHit (f : Finding) (p : Policy) : PolicyHit where
  policyID := p.id
  policyName := p.name
  action := p.action
  findingID := f.id
  title := firstNonEmpty [f.algorithm, f.component, f.cve, p.name]
  location := f.location
  description := p.description

def message (f : Finding) (p : Policy) : String :=
  p.name ++ " @ " ++ firstNonEmpty [f.location, f.component, f.id]

/-- The body of the inner loop. -/
def applyPolicy (f : Finding) (gate : GateResult) (p : Policy) : GateResult :=
  if !p.matches f then gate
  else
    let gate := { gate with hits := gate.hits ++ [policyHit f p] }
    match p.action with
    | .block =>
      { gate with
        blocked := gate.blocked + 1, passed := false, action := .block
        reasons := gate.reasons ++ [message f p] }
    | .warn =>
      { gate with
        warned := gate.warned + 1, warnings := gate.warnings ++ [message f p]
        action := if gate.action ≠ .block then .warn else gate.action }
    | _ => gate

/-- The body of the outer loop. -/
def applyPolicies (policies : List Policy) (gate : GateResult) (f : Finding) : GateResult :=
  if excludedPath pl f.location then gate else policies.foldl (applyPolicy f) gate

/-- The gate, under the default policies where none are given. -/
def evaluate (findings : List Finding) (policies : Option (List Policy)) : GateResult :=
  let policies := policies.getD (defaultPolicies pl)
  let gate := findings.foldl (applyPolicies pl policies) { passed := true, action := .allow }
  { gate with failed := !gate.passed, decision := gate.action.text }

end RivicQ.Intelligence.Policies

namespace RivicQ.Intelligence.FailOn

open RivicQ.Lib.GoStrings RivicQ.Intelligence.Findings RivicQ.Intelligence.Policies

structure Report where
  findings : List Finding
  gate : GateResult

/-- The threshold a text names; `quote` is Go's quoting of a text in a message. -/
def parseFailOn (cm : CaseMap) (quote : String → String) (failOn : String) :
    Except String String :=
  let v := toLower cm (trimSpace failOn)
  match v with
  | "" => .ok "block"
  | "block" | "none" | "warn" | "critical" | "high" | "medium" => .ok v
  | _ => .error ("invalid --fail-on " ++ quote failOn ++
      " (want BLOCK|WARN|NONE|critical|high|medium)")

def countSeverity (rep : Report) (level : String) : Nat :=
  rep.findings.countP fun f => normalizeSeverity f.severity = normalizeSeverity level

/-- Whether a report fails under a threshold; a missing report fails under none. -/
def shouldFailOn (cm : CaseMap) (quote : String → String) (failOn : String) :
    Option Report → Bool
  | none => false
  | some rep =>
    match parseFailOn cm quote failOn with
    | .error _ => false
    | .ok "block" => rep.gate.failed
    | .ok "none" => false
    | .ok "warn" => rep.gate.failed || decide (rep.gate.warnings.length > 0)
    | .ok "critical" => decide (countSeverity rep "CRITICAL" > 0)
    | .ok "high" => decide (countSeverity rep "CRITICAL" + countSeverity rep "HIGH" > 0)
    | .ok "medium" => decide
        (countSeverity rep "CRITICAL" + countSeverity rep "HIGH" + countSeverity rep "MEDIUM" > 0)
    | .ok _ => false

end RivicQ.Intelligence.FailOn
