import RivicQ.Lib.Occurrences
import RivicQ.Lib.Tables

namespace RivicQ.Enterprise.Threats

open RivicQ.Lib.Tables RivicQ.Lib.Patterns

/-- Nanoseconds since the epoch. -/
abbrev Time := Int

def unix (t : Time) : Int := t / 1000000000

def quantumVulnerableAlgorithms : List String :=
  ["RSA", "RSA-1024", "RSA-2048", "RSA-3072", "RSA-4096", "DSA", "ECDSA", "ECDSA-P256",
    "ECDSA-P384", "ECDSA-P521", "ECDH", "DH", "Diffie-Hellman", "ElGamal", "SHA-1", "SHA1", "MD5",
    "MD4", "Triple DES", "3DES", "DES"]

def quantumSafeAlgorithms : List String :=
  ["AES", "AES-128", "AES-192", "AES-256", "AES-256-GCM", "ChaCha20", "ChaCha20-Poly1305", "Blake2",
    "Blake2b", "Blake3", "SHA-256", "SHA-384", "SHA-512", "SHA-224", "SHA-3", "ML-KEM-768",
    "ML-KEM-1024", "ML-DSA-65", "ML-DSA-87", "SLH-DSA", "X25519", "X448", "Ed25519", "Ed448", "HMAC",
    "PBKDF2", "Argon2", "scrypt", "bcrypt"]

/-- Whether an algorithm is listed as vulnerable, and whether it is listed as safe. -/
def classifyAlgorithm (algorithm : String) : Bool × Bool :=
  (decide (algorithm ∈ quantumVulnerableAlgorithms), decide (algorithm ∈ quantumSafeAlgorithms))

inductive RiskLevel where
  | critical
  | high
  | medium
  | low
  deriving DecidableEq

def RiskLevel.text : RiskLevel → String
  | .critical => "critical"
  | .high => "high"
  | .medium => "medium"
  | .low => "low"

def RiskLevel.rank : RiskLevel → Nat
  | .critical => 4
  | .high => 3
  | .medium => 2
  | .low => 1

def riskLevelFor (vulnScore : Int) (quantumSafe vulnerable : Bool) : RiskLevel :=
  if quantumSafe && !vulnerable then .low
  else if vulnScore ≥ 80 then .critical
  else if vulnScore ≥ 60 then .high
  else if vulnScore ≥ 40 then .medium
  else .low

def migrationFor : RiskLevel → String
  | .critical | .high => "migrate"
  | .medium => "plan"
  | .low => "monitored"

/-- An asset, as far as the engine looks at it. -/
structure CryptoAssetRow where
  id : String
  algorithm : String
  keySize : Int
  location : String
  vulnerability : Int
  quantumSafe : Bool

def CryptoAssetRow.algorithmKey (r : CryptoAssetRow) : String :=
  if r.keySize > 0 ∧ r.algorithm ∈ ["RSA", "DSA", "DH", "ECDH"] then
    r.algorithm ++ "-" ++ toString r.keySize
  else r.algorithm

section Aggregation

/-- What the loop over the assets keeps of an algorithm. -/
structure Tally where
  algorithm : String
  usage : Nat := 0
  vulnerability : Int := 0
  quantumSafe : Bool
  vulnerable : Bool
  sampleLocation : String := ""

structure AlgorithmStat extends Tally where
  riskLevel : RiskLevel
  migration : String

def newTally (key : String) : Tally :=
  { algorithm := key
    quantumSafe := (classifyAlgorithm key).2
    vulnerable := (classifyAlgorithm key).1 }

def Tally.add (st : Tally) (a : CryptoAssetRow) : Tally :=
  { st with
    usage := st.usage + 1
    vulnerability := if a.vulnerability > st.vulnerability then a.vulnerability else st.vulnerability
    sampleLocation :=
      if st.sampleLocation = "" ∧ a.location ≠ "" then a.location else st.sampleLocation }

/-- The tallies, and the keys in the order in which they are met. -/
structure Groups where
  order : List String := []
  byKey : Table Tally := ∅

def Groups.add (g : Groups) (a : CryptoAssetRow) : Groups :=
  match g.byKey.lookup a.algorithmKey with
  | none =>
    { order := g.order ++ [a.algorithmKey]
      byKey := g.byKey.insert a.algorithmKey ((newTally a.algorithmKey).add a) }
  | some st => { g with byKey := g.byKey.insert a.algorithmKey (st.add a) }

def Tally.finish (st : Tally) : AlgorithmStat :=
  { st with
    riskLevel := riskLevelFor st.vulnerability st.quantumSafe st.vulnerable
    migration := migrationFor (riskLevelFor st.vulnerability st.quantumSafe st.vulnerable) }

/-- The riskier comes first, then what is used more. -/
def before (a b : AlgorithmStat) : Bool :=
  if a.riskLevel.rank ≠ b.riskLevel.rank then a.riskLevel.rank > b.riskLevel.rank
  else a.usage ≥ b.usage

def aggregateByAlgorithm (assets : List CryptoAssetRow) : List AlgorithmStat :=
  let g := assets.foldl Groups.add {}
  ((g.order.filterMap g.byKey.lookup).map Tally.finish).mergeSort before

end Aggregation

section Detection

/-- A threat; its confidence is in percent. -/
structure ThreatDetection where
  id : String
  type : String
  severity : RiskLevel
  confidence : Nat
  source : String
  description : String
  affectedAssets : List String
  recommendation : String
  detectedAt : Time
  deriving DecidableEq

def slugRune (c : Char) : Option Char :=
  if ('a' ≤ c ∧ c ≤ 'z') ∨ ('A' ≤ c ∧ c ≤ 'Z') ∨ ('0' ≤ c ∧ c ≤ '9') then some c.toLower
  else if c = ' ' ∨ c = '-' ∨ c = '.' then some '-'
  else none

def slugify (s : String) : String := String.ofList (s.toList.filterMap slugRune)

def threatID (algorithm : String) (now : Time) : String :=
  "threat-" ++ slugify algorithm ++ "-" ++ toString (unix now)

def threatType : RiskLevel → String
  | .critical => "critical_quantum_vulnerability"
  | .high => "quantum_vulnerability"
  | .medium => "quantum_transition_risk"
  | .low => "weak_crypto_usage"

def recommendation (algorithm : String) : RiskLevel → String
  | .critical =>
    "Immediately migrate " ++ algorithm ++ " to a NIST PQC algorithm (ML-KEM / ML-DSA)."
  | .high =>
    "Prioritize migration of " ++ algorithm ++
      "; schedule ML-KEM/ML-DSA adoption in the current quarter."
  | .medium => "Plan a hybrid (classic + PQC) transition for " ++ algorithm ++ "."
  | .low =>
    "Replace " ++ algorithm ++ " usage with a quantum-safe or key-strengthened alternative."

def threatOf (assets : List CryptoAssetRow) (now : Time) (st : AlgorithmStat) : ThreatDetection where
  id := threatID st.algorithm now
  type := threatType st.riskLevel
  severity := st.riskLevel
  confidence := min 95 (60 + st.usage * 2)
  source := "ml-threat-engine"
  description := toString st.usage ++ " asset(s) rely on " ++ st.algorithm ++
    " which is not quantum-safe (vulnerability score " ++ toString st.vulnerability ++ ")."
  affectedAssets := ((assets.filter fun a => a.algorithmKey = st.algorithm).take 5).map (·.id)
  recommendation := recommendation st.algorithm st.riskLevel
  detectedAt := now

def buildThreats (stats : List AlgorithmStat) (assets : List CryptoAssetRow) (now : Time) :
    List ThreatDetection :=
  (stats.filter fun st => !(st.quantumSafe && !st.vulnerable)).map (threatOf assets now)

/-- The threats that `analyzeThreats` finds in an inventory. -/
def detect (assets : List CryptoAssetRow) (now : Time) : List ThreatDetection :=
  buildThreats (aggregateByAlgorithm assets) assets now

end Detection

section Events

/-- A row of `security_events`, with its metadata as `metadata::text` shows it. -/
structure SecurityEvent where
  tenantID : String
  eventType : String
  severity : String
  source : String
  description : String
  metadata : String
  resolved : Bool
  deriving DecidableEq

/-- The statements about a threat that the server refuses. -/
structure Server where
  lookup : String → Option String
  insert : String → Option String

/-- A server that refuses nothing. -/
def Server.up : Server := ⟨fun _ => none, fun _ => none⟩

def eventExistsForSource (events : List SecurityEvent) (tenantID source threatID : String) : Bool :=
  events.countP (fun e => e.tenantID = tenantID ∧ e.source = source ∧
    like ('%' :: (threatID.toList ++ ['%'])) e.metadata.toList) > 0

variable (text : ThreatDetection → String) (server : Server) (tenantID : String)

/-- The event of a threat, by the text that the server keeps of its metadata. -/
def eventOf (t : ThreatDetection) : SecurityEvent :=
  { tenantID, eventType := t.type, severity := t.severity.text, source := t.source
    description := t.description, metadata := text t, resolved := false }

/-- Insert the threats that are critical or high and not yet known, up to the first one that the
server does not take. -/
def persistThreatEvents : List ThreatDetection → List SecurityEvent →
    Option String × List SecurityEvent
  | [], events => (none, events)
  | t :: ts, events =>
    if t.severity ≠ .critical ∧ t.severity ≠ .high then persistThreatEvents ts events
    else if (server.lookup t.id).isSome ∨ eventExistsForSource events tenantID t.source t.id then
      persistThreatEvents ts events
    else
      match server.insert t.id with
      | some err => (some err, events)
      | none => persistThreatEvents ts (events ++ [eventOf text tenantID t])

end Events

end RivicQ.Enterprise.Threats
