import RivicQ.Discovery.Targets
import RivicQ.Lib.Firsts

namespace RivicQ.Discovery.Components

open RivicQ.Lib.Firsts RivicQ.Discovery.Targets

inductive SeverityLevel where
  | critical
  | high
  | medium
  | low
  | info
  | unset
  deriving DecidableEq

def SeverityLevel.text : SeverityLevel → String
  | .critical => "CRITICAL"
  | .high => "HIGH"
  | .medium => "MEDIUM"
  | .low => "LOW"
  | .info => "INFO"
  | .unset => ""

/-- A weakness that a scan has met. -/
structure Finding where
  targetID : String
  targetLabel : String
  host : String
  port : Int := 0
  protocol : String
  findingType : String
  title : String
  description : String
  evidence : String
  severity : SeverityLevel
  algorithm : String := ""
  keyLength : Int := 0
  remediation : String
  bsiRef : String := ""
  doraRef : String := ""
  eidasRef : String := ""
  quantumSafe : Bool

/-- A row of the cryptographic bill of materials. -/
structure CBOMComponent where
  algorithm : String
  keySize : Int := 0
  library : String := ""
  version : String := ""
  riskLevel : SeverityLevel
  quantumSafe : Bool
  pqcStatus : String
  location : String := ""
  bsiRef : String := ""
  deriving DecidableEq

def findingKey (f : Finding) : String := f.algorithm ++ "|" ++ f.severity.text

def componentOf (f : Finding) : CBOMComponent where
  algorithm := f.algorithm
  keySize := f.keyLength
  riskLevel := f.severity
  quantumSafe := f.quantumSafe
  pqcStatus := if f.quantumSafe then "safe" else "migration_required"
  location := f.targetLabel
  bsiRef := f.bsiRef

/-- The components of scan findings, where repeated algorithms are one. -/
def componentsFromFindings (findings : List Finding) : List CBOMComponent :=
  (firsts findingKey (findings.filter (·.algorithm ≠ ""))).map componentOf

def componentKey (c : CBOMComponent) : String :=
  c.algorithm ++ "@" ++ c.library ++ "@" ++ c.version ++ "|" ++ c.riskLevel.text

/-- The components without duplicates, in their order. -/
def dedupeComponents (components : List CBOMComponent) : List CBOMComponent :=
  firsts componentKey components

structure ScanSummary where
  totalTargets : Nat
  scannedTargets : Nat
  totalFindings : Nat
  critical : Nat
  high : Nat
  medium : Nat
  low : Nat
  quantumUnsafe : Nat
  bsiReferenced : Nat
  totalComponents : Nat
  atRisk : Nat
  quantumSafe : Nat
  pqcReady : Nat

def computeSummary (targets scanned : Nat) (findings : List Finding)
    (components : List CBOMComponent) : ScanSummary where
  totalTargets := targets
  scannedTargets := scanned
  totalFindings := findings.length
  critical := findings.countP (·.severity = .critical)
  high := findings.countP (·.severity = .high)
  medium := findings.countP (·.severity = .medium)
  low := findings.countP (·.severity = .low)
  quantumUnsafe := findings.countP (!·.quantumSafe)
  bsiReferenced := findings.countP (·.bsiRef ≠ "")
  totalComponents := components.length
  atRisk := components.countP fun c => c.riskLevel = .critical ∨ c.riskLevel = .high
  quantumSafe := components.countP (·.quantumSafe)
  pqcReady := components.countP (·.pqcStatus = "pqc_ready")

/-- What the scan of a target comes to. -/
abbrev Outcome := Except String (List Finding × List CBOMComponent)

/-- A target with the findings of the scanner of its protocol, and what its path or its
declared inventory comes to. -/
structure Attempt where
  target : Target
  network : Except String (List Finding)
  inventory : Outcome

def isNetwork (target : Target) : Bool :=
  target.protocol = "tls" || target.protocol = "ssh" || target.protocol = "http"

def scanTarget (attempt : Attempt) : Outcome :=
  if isNetwork attempt.target then
    attempt.network.map fun findings => (findings, componentsFromFindings findings)
  else if attempt.target.protocol = "sbom" || attempt.target.protocol = "k8s" ||
      attempt.target.protocol = "hardware" || attempt.target.protocol = "firmware" then
    attempt.inventory
  else .ok ([], [])

/-- What the goroutines of a scan share. -/
structure Shared where
  findings : List Finding := []
  components : List CBOMComponent := []
  scanned : Nat := 0

/-- A goroutine with the lock. -/
def Shared.finish (shared : Shared) (attempt : Attempt) : Shared :=
  match scanTarget attempt with
  | .error _ => { shared with scanned := shared.scanned + 1 }
  | .ok (findings, components) =>
    { findings := shared.findings ++ findings, components := shared.components ++ components
      scanned := shared.scanned + 1 }

structure ScanResult where
  scanID : String
  startedAt : Nat
  completedAt : Nat
  targets : List Target
  findings : List Finding
  components : List CBOMComponent
  summary : ScanSummary

/-- The result for some targets whose scans finish in some order. -/
def scanResult (scanID : String) (startedAt completedAt : Nat) (targets : List Target)
    (attempts : List Attempt) : ScanResult :=
  let shared := attempts.foldl Shared.finish {}
  let components := dedupeComponents shared.components
  { scanID := scanID, startedAt := startedAt, completedAt := completedAt, targets := targets
    findings := shared.findings, components := components
    summary := computeSummary targets.length shared.scanned shared.findings components }

def scanAll (scanID : String) (startedAt completedAt : Nat) (targets : List Target)
    (attempts : List Attempt) : Except String ScanResult :=
  .ok (scanResult scanID startedAt completedAt targets attempts)

/-- A scan that returns without an error. -/
def Succeeds (attempt : Attempt) : Prop := (scanTarget attempt).isOk

instance (attempt : Attempt) : Decidable (Succeeds attempt) := inferInstanceAs (Decidable (_ = _))

section ScanAll

variable {attempts : List Attempt} {attempt : Attempt} {shared : Shared}

/-- What a target adds to the findings and to the components. -/
def found (attempt : Attempt) : List Finding × List CBOMComponent :=
  (scanTarget attempt).toOption.getD ([], [])

theorem found_eq {parts : List Finding × List CBOMComponent} (h : scanTarget attempt = .ok parts) :
    found attempt = parts := by
  rw [found, h]
  rfl

theorem findings_finish :
    (shared.finish attempt).findings = shared.findings ++ (found attempt).1 := by
  rw [Shared.finish, found]
  cases scanTarget attempt with
  | error e => exact (List.append_nil _).symm
  | ok parts => rfl

theorem components_finish :
    (shared.finish attempt).components = shared.components ++ (found attempt).2 := by
  rw [Shared.finish, found]
  cases scanTarget attempt with
  | error e => exact (List.append_nil _).symm
  | ok parts => rfl

/-- A target counts as scanned whether or not its scan succeeded. -/
theorem scanned_finish : (shared.finish attempt).scanned = shared.scanned + 1 := by
  rw [Shared.finish]
  cases scanTarget attempt <;> rfl

theorem scanned_foldl (attempts : List Attempt) (shared : Shared) :
    (attempts.foldl Shared.finish shared).scanned = shared.scanned + attempts.length := by
  induction attempts generalizing shared with
  | nil => rfl
  | cons attempt attempts ih =>
    rw [List.foldl_cons, ih, scanned_finish, List.length_cons]
    omega

theorem findings_foldl (attempts : List Attempt) (shared : Shared) :
    (attempts.foldl Shared.finish shared).findings =
      shared.findings ++ attempts.flatMap fun a => (found a).1 := by
  induction attempts generalizing shared with
  | nil => exact (List.append_nil _).symm
  | cons attempt attempts ih =>
    rw [List.foldl_cons, ih, findings_finish, List.flatMap_cons, List.append_assoc]

theorem components_foldl (attempts : List Attempt) (shared : Shared) :
    (attempts.foldl Shared.finish shared).components =
      shared.components ++ attempts.flatMap fun a => (found a).2 := by
  induction attempts generalizing shared with
  | nil => exact (List.append_nil _).symm
  | cons attempt attempts ih =>
    rw [List.foldl_cons, ih, components_finish, List.flatMap_cons, List.append_assoc]

end ScanAll

end RivicQ.Discovery.Components
