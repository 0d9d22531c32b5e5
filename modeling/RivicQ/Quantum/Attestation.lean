import Mathlib.Data.Rat.Cast.Order
import Mathlib.Tactic.Linarith
import Mathlib.Tactic.NormNum
import RivicQ.Lib.Bytes
import RivicQ.Lib.GoStrings

namespace RivicQ.Quantum.Attestation

open RivicQ.Lib.GoStrings RivicQ.Lib.Bytes RivicQ.Lib.Base64

structure PQCAlgorithmInfo where
  name : String
  nistStandard : String := ""
  category : String
  quantumSafe : Bool
  securityLevel : Nat
  status : String
  deriving DecidableEq

structure QuantumRiskReport where
  assetID : String
  assetName : String
  riskScore : Nat
  riskLevel : String
  vulnerableAlgos : List PQCAlgorithmInfo
  safeAlgos : List PQCAlgorithmInfo
  harvestNowRisk : Bool
  migrationUrgency : String
  recommendedActions : List String
  deriving DecidableEq

structure AttestationReport where
  assetID : String
  scanID : String
  riskReport : QuantumRiskReport
  certChain : List String
  signature : String
  nistCompliant : Bool
  bsiCompliant : Bool
  doraCompliant : Bool

def knownVulnerable : List PQCAlgorithmInfo :=
  [{ name := "RSA-2048", category := "Asymmetric", quantumSafe := false, securityLevel := 0
     status := "Deprecated-PQ" },
   { name := "RSA-3072", category := "Asymmetric", quantumSafe := false, securityLevel := 0
     status := "Weak-PQ" },
   { name := "ECDSA-P256", category := "Signature", quantumSafe := false, securityLevel := 0
     status := "Deprecated-PQ" },
   { name := "ECDH-P256", category := "KEM", quantumSafe := false, securityLevel := 0
     status := "Deprecated-PQ" },
   { name := "DH-2048", category := "KEM", quantumSafe := false, securityLevel := 0
     status := "Deprecated-PQ" }]

def knownSafe : List PQCAlgorithmInfo :=
  [{ name := "ML-KEM-768", nistStandard := "FIPS-203", category := "KEM", quantumSafe := true
     securityLevel := 3, status := "Standardized" },
   { name := "ML-KEM-1024", nistStandard := "FIPS-203", category := "KEM", quantumSafe := true
     securityLevel := 5, status := "Standardized" },
   { name := "ML-DSA-65", nistStandard := "FIPS-204", category := "Signature", quantumSafe := true
     securityLevel := 3, status := "Standardized" },
   { name := "ML-DSA-87", nistStandard := "FIPS-204", category := "Signature", quantumSafe := true
     securityLevel := 5, status := "Standardized" },
   { name := "SLH-DSA-SHA2-128s", nistStandard := "FIPS-205", category := "Signature"
     quantumSafe := true, securityLevel := 1, status := "Standardized" },
   { name := "FALCON-512", category := "Signature", quantumSafe := true, securityLevel := 1
     status := "Candidate" },
   { name := "Classic-McEliece-348864", category := "KEM", quantumSafe := true, securityLevel := 1
     status := "Candidate" },
   { name := "AES-256", nistStandard := "FIPS-197", category := "Symmetric", quantumSafe := true
     securityLevel := 5, status := "Standardized" }]

section Scanner

variable (cm : CaseMap)

/-- The part of a name before its first hyphen. -/
def firstPart (name : String) : String := ((cut name '-').map (·.1)).getD name

/-- The rows of a table whose first part occurs in an algorithm. -/
def matching (table : List PQCAlgorithmInfo) (algorithm : String) : List PQCAlgorithmInfo :=
  table.filter fun row => contains (toUpper cm algorithm) (toUpper cm (firstPart row.name))

def riskScore (vulnerable safe : Nat) : Nat :=
  if vulnerable > 0 then 100 * vulnerable / (vulnerable + safe + 1) else 0

/-- The level of a score, the urgency of the migration, and the risk of a later decryption. -/
def riskLevel (score : Nat) : String × String × Bool :=
  if score ≥ 80 then ("CRITICAL", "IMMEDIATE", true)
  else if score ≥ 60 then ("HIGH", "2025", true)
  else if score ≥ 30 then ("MEDIUM", "2027", false)
  else if score > 0 then ("LOW", "2030+", false)
  else ("SAFE", "2030+", false)

def assessAsset (assetID assetName : String) (algorithms : List String) :
    Except String QuantumRiskReport :=
  if assetID = "" then .error "asset ID must not be empty"
  else
    let vulnAlgos := algorithms.flatMap (matching cm knownVulnerable)
    let safeAlgos := algorithms.flatMap (matching cm knownSafe)
    let score := riskScore vulnAlgos.length safeAlgos.length
    let level := riskLevel score
    .ok { assetID, assetName, riskScore := score, riskLevel := level.1
          vulnerableAlgos := vulnAlgos, safeAlgos := safeAlgos, harvestNowRisk := level.2.2
          migrationUrgency := level.2.1
          recommendedActions :=
            ["Inventory all cryptographic assets using CryptoBOM SBOM export",
              "Prioritise migration of key exchange mechanisms to ML-KEM-768 (FIPS 203)"] ++
            if vulnAlgos.length > 0 then
              ["Replace RSA/ECDSA signatures with ML-DSA-65 (FIPS 204)",
                "Enable hybrid PQC+classical mode during transition period",
                "Rotate all long-lived secrets protected by vulnerable algorithms"]
            else [] }

/-- The random bytes of an attestation; the first draw can fail. -/
structure Draws where
  scanID : Except String Bytes
  signature : Bytes

def generateAttestationReport (assetID : String) (report : Option QuantumRiskReport)
    (draws : Draws) : Except String AttestationReport :=
  match report with
  | none => .error "assetID and report must not be nil"
  | some report =>
    if assetID = "" then .error "assetID and report must not be nil"
    else
      match draws.scanID with
      | .error err => .error ("generating scan ID: " ++ err)
      | .ok scanID =>
        .ok { assetID, scanID := hexString scanID, riskReport := report
              certChain := ["-----BEGIN CERTIFICATE-----\nMIIB...CryptoBOM Root CA (stub)\n" ++
                "-----END CERTIFICATE-----"]
              signature := hexString draws.signature
              nistCompliant := true, bsiCompliant := true, doraCompliant := true }

end Scanner

section Providers

variable (cm : CaseMap)

structure AttestationRequest where
  assetID : String
  algorithm : String
  keySize : Int
  usage : String

/-- The result of an attestation. The risk score is a float64 there; that it is rounded does not
change how it compares with 0.3. -/
structure AttestationResult where
  assetID : String
  providerName : String
  quantumSafe : Bool
  riskScore : ℚ
  recommendations : List String

/-- The result for a report, with the risk score brought to the range from 0 to 1. -/
def attested (provider : String) (req : AttestationRequest) (report : QuantumRiskReport) :
    AttestationResult :=
  let riskScore : ℚ := report.riskScore / 100
  { assetID := req.assetID, providerName := provider, quantumSafe := decide (riskScore < 3 / 10)
    riskScore, recommendations := report.recommendedActions }

/-- `Attest` of the local provider. -/
def localAttest (req : AttestationRequest) : Except String AttestationResult :=
  if req.assetID = "" then .error "attestation request: AssetID must not be empty"
  else if req.algorithm = "" then .error "attestation request: Algorithm must not be empty"
  else
    match assessAsset cm req.assetID req.assetID [req.algorithm] with
    | .error err => .error ("local attestation: assess asset: " ++ err)
    | .ok report => .ok (attested "local-pqc" req report)

/-- `Attest` of the engine of Open Quantum Safe. -/
def engineAttest (req : AttestationRequest) : Except String AttestationResult :=
  match assessAsset cm req.assetID req.assetID [req.algorithm] with
  | .error err => .error err
  | .ok report => .ok (attested "oqs-engine" req report)

end Providers

section Scores

variable {v s : Nat}

theorem riskScore_lt_iff (n : Nat) (hn : 0 < n) :
    riskScore v s < n ↔ v = 0 ∨ 100 * v < n * (v + s + 1) := by
  rw [riskScore]
  split_ifs with hv
  · rw [Nat.div_lt_iff_lt_mul (by omega)]
    exact ⟨.inr, fun h => h.resolve_left (by omega)⟩
  · exact iff_of_true hn (.inl (by omega))

theorem riskLevel_safe_iff (score : Nat) : (riskLevel score).1 = "SAFE" ↔ score = 0 := by
  unfold riskLevel
  split_ifs with hcritical hhigh hmedium hlow
  · exact iff_of_false (by decide) (by omega)
  · exact iff_of_false (by decide) (by omega)
  · exact iff_of_false (by decide) (by omega)
  · exact iff_of_false (by decide) (by omega)
  · exact iff_of_true rfl (by omega)

theorem attested_quantumSafe_iff (provider : String) (req : AttestationRequest)
    (report : QuantumRiskReport) :
    (attested provider req report).quantumSafe = true ↔ report.riskScore < 30 := by
  rw [attested, decide_eq_true_iff, div_lt_iff₀ (by norm_num)]
  have hbound : (3 / 10 * 100 : ℚ) = (30 : ℕ) := by norm_num
  rw [hbound, Nat.cast_lt]

end Scores

end RivicQ.Quantum.Attestation
