import RivicQ.Discovery.Components
import RivicQ.Lib.GoStrings
import RivicQ.Lib.Tables

namespace RivicQ.Intelligence.Findings

open RivicQ.Lib.GoStrings RivicQ.Lib.Tables

/-- Moments, with the zero time as the first one. -/
abbrev Time := Nat

structure Factor where
  label : String
  points : Int

structure RiskBreakdown where
  score : Int := 0
  level : String := ""
  contributors : List Factor := []
  method : String := ""
  recommendedAction : String := ""

/-- The normalized security finding. -/
structure Finding where
  id : String := ""
  scanner : String := ""
  scannerVersion : String := ""
  ruleID : String := ""
  fingerprint : String := ""
  component : String := ""
  title : String := ""
  cve : String := ""
  kev : Bool := false
  severity : String := ""
  riskScore : Int := 0
  risk : RiskBreakdown := {}
  evidence : String := ""
  location : String := ""
  line : Int := 0
  algorithm : String := ""
  keyLength : Int := 0
  usage : String := ""
  recommendedAction : String := ""
  status : String := ""
  createdAt : Time := 0
  updatedAt : Time := 0
  firstSeen : Time := 0
  lastSeen : Time := 0
  quantumSafe : Bool := false
  pqcClass : String := ""
  labels : Table String := ∅

inductive Severity where
  | info
  | low
  | medium
  | high
  | critical
  deriving DecidableEq

def normalizeSeverity : String → Severity
  | "critical" => .critical
  | "CRITICAL" => .critical
  | "Critical" => .critical
  | "high" => .high
  | "HIGH" => .high
  | "High" => .high
  | "medium" => .medium
  | "MEDIUM" => .medium
  | "Medium" => .medium
  | "low" => .low
  | "LOW" => .low
  | "Low" => .low
  | _ => .info

def Severity.rank : Severity → Nat
  | .critical => 4
  | .high => 3
  | .medium => 2
  | .low => 1
  | .info => 0

def severityRank (s : String) : Nat := (normalizeSeverity s).rank

def Finding.findingLabel (f : Finding) : String := f.algorithm ++ " " ++ f.component

def firstNonEmpty (v : List String) : String := (v.find? fun s => trimSpace s ≠ "").getD ""

def containsAny (blob : String) (needles : List String) : Bool :=
  needles.any fun n => contains blob n

end RivicQ.Intelligence.Findings

namespace RivicQ.Intelligence.CycloneDX

open RivicQ.Lib.Firsts RivicQ.Intelligence.Findings
open RivicQ.Discovery.Components (CBOMComponent)

/-- Of the numbers that have a numeral here, all the others are taken for the last one. -/
def itoa (n : Int) : String :=
  if n = 1024 then "1024" else if n = 2048 then "2048" else if n = 3072 then "3072" else "4096"

def keySizeLabel (n : Int) : String := if n ≤ 0 then "" else itoa n

def boolStr (v : Bool) : String := if v then "true" else "false"

/-- A cryptographic asset of the document. -/
structure Entry where
  type : String := "cryptographic-asset"
  name : String
  version : Option String := none
  assetType : String := "algorithm"
  parameterSetIdentifier : String
  executionEnvironment : String := "software"
  properties : List (String × String)

/-- What the document has a place for. -/
inductive Asset where
  | component (c : CBOMComponent)
  | finding (f : Finding)

def Asset.algorithm : Asset → String
  | .component c => c.algorithm
  | .finding f => f.algorithm

def Asset.keySize : Asset → Int
  | .component c => c.keySize
  | .finding f => f.keyLength

def Asset.location : Asset → String
  | .component c => c.location
  | .finding f => f.location

def Asset.name : Asset → String
  | .component c => firstNonEmpty [c.algorithm, c.library]
  | .finding f => f.algorithm

/-- The key under which an asset has been seen. -/
def Asset.key : Asset → String
  | .component c => c.algorithm ++ "|" ++ c.library ++ "|" ++ c.location
  | .finding f => f.algorithm ++ "||" ++ f.location

def Asset.entry : Asset → Entry
  | .component c =>
    { name := firstNonEmpty [c.algorithm, c.library]
      version := some c.version
      parameterSetIdentifier := keySizeLabel c.keySize
      properties := [
        ("rivicq:quantum_safe", boolStr c.quantumSafe),
        ("rivicq:pqc_status", c.pqcStatus),
        ("rivicq:location", c.location),
        ("rivicq:risk_level", c.riskLevel.text)] }
  | .finding f =>
    { name := f.algorithm
      parameterSetIdentifier := keySizeLabel f.keyLength
      properties := [
        ("rivicq:quantum_safe", boolStr f.quantumSafe),
        ("rivicq:pqc_status", f.pqcClass),
        ("rivicq:location", f.location),
        ("rivicq:risk_level", f.risk.level),
        ("rivicq:source", "detected-finding"),
        ("rivicq:rule_id", f.ruleID)] }

/-- The components, and after them the findings that name an algorithm. -/
def assets (components : List CBOMComponent) (findings : List Finding) : List Asset :=
  components.map .component ++ (findings.filter (·.algorithm ≠ "")).map .finding

structure Document where
  bomFormat : String := "CycloneDX"
  specVersion : String := "1.6"
  version : Nat := 1
  serialNumber : String
  timestamp : String
  toolVendor : String := "RivicQ"
  toolName : String := "RivicQ CBOM Engine"
  toolVersion : String := "rivicq-intelligence/1.0.0"
  componentType : String := "application"
  componentName : String
  components : List Entry
  annotations : List String

/-- The document of a target, with a fresh UUID and the time. -/
def cycloneDXBOM (uuid timestamp target : String) (components : List CBOMComponent)
    (findings : List Finding) : Document where
  serialNumber := "urn:uuid:" ++ uuid
  timestamp := timestamp
  componentName := target
  components := (firsts Asset.key (assets components findings)).map Asset.entry
  annotations := ["Generated from RivicQ discovery/CBOM components and detected crypto findings. " ++
    "This is a CycloneDX 1.6 cryptographic-asset BOM, not a substitute for a full application SBOM."]

end RivicQ.Intelligence.CycloneDX
