import Mathlib.Algebra.Order.Field.Rat

namespace RivicQ.Quantum.Migration

inductive QuantumRiskLevel where
  | critical
  | high
  | medium
  | low
  | safe
  deriving DecidableEq

/-- A cryptographic primitive that was discovered. -/
structure CryptoAsset where
  id : String := ""
  algorithm : String
  quantumRisk : QuantumRiskLevel := .low
  harvestRisk : Bool := false

def vulnerable : List String :=
  ["RSA-1024", "RSA-2048", "RSA-3072", "RSA-4096", "ECDSA-P256", "ECDSA-P384", "ECDSA-P521",
    "ECDH-P256", "ECDH-P384", "DSA-1024", "DSA-2048", "DH-1024", "DH-2048", "DH-3072", "Ed25519",
    "Ed448"]

def pqcSafe : List String :=
  ["ML-KEM-768", "ML-KEM-1024", "ML-DSA-65", "ML-DSA-87", "SLH-DSA-SHA2-128s", "AES-256",
    "AES-256-GCM", "ChaCha20-Poly1305", "SHA-3-256", "SHA-3-512", "BLAKE3"]

def assessCryptoAsset (asset : CryptoAsset) : QuantumRiskLevel :=
  if asset.algorithm ∈ pqcSafe then .safe
  else if asset.algorithm ∈ vulnerable then if asset.harvestRisk then .critical else .high
  else if asset.algorithm = "AES-128" ∨ asset.algorithm = "3DES" then .medium
  else .low

structure MigrationRecommendation where
  priority : Nat
  assetID : String
  currentAlgo : String
  targetAlgo : String
  rationale : String
  effort : String
  deadline : String

def migrationMap : List (String × String) :=
  [("RSA-2048", "ML-KEM-768 + ML-DSA-65 (FIPS 203/204)"),
    ("RSA-4096", "ML-KEM-1024 + ML-DSA-87 (FIPS 203/204)"),
    ("ECDSA-P256", "ML-DSA-65 (FIPS 204)"), ("ECDSA-P384", "ML-DSA-87 (FIPS 204)"),
    ("ECDH-P256", "ML-KEM-768 (FIPS 203)"), ("ECDH-P384", "ML-KEM-1024 (FIPS 203)"),
    ("Ed25519", "ML-DSA-65 (FIPS 204)"), ("AES-128", "AES-256-GCM"), ("3DES", "AES-256-GCM")]

def riskRationale : QuantumRiskLevel → String
  | .critical => "HARVEST-NOW-DECRYPT-LATER attack possible. " ++
      "Immediate migration required per BSI TR-02102-1."
  | .high => "Vulnerable within estimated 10-year horizon. Migrate before DORA deadline."
  | _ => "Migration recommended to achieve full quantum-safe posture."

def buildRecommendation (priority : Nat) (asset : CryptoAsset) : MigrationRecommendation where
  priority := priority
  assetID := asset.id
  currentAlgo := asset.algorithm
  targetAlgo := (migrationMap.lookup asset.algorithm).getD
    "ML-KEM-768 or ML-DSA-65 (evaluate based on usage)"
  rationale := asset.algorithm ++ " is vulnerable to Shor's algorithm on quantum computers. " ++
    riskRationale asset.quantumRisk
  effort := if asset.quantumRisk = .critical then "HIGH" else "MEDIUM"
  deadline := if asset.quantumRisk = .critical then "2025-12-31" else "2026-12-31"

/-- The readiness report; its score is an exact rational here. -/
structure QuantumMigrationReport where
  tenantID : String
  totalAssets : Nat
  criticalAssets : Nat := 0
  highRiskAssets : Nat := 0
  safeAssets : Nat := 0
  readinessScore : ℚ := 0
  assets : List CryptoAsset := []
  recommendations : List MigrationRecommendation := []
  bsiCompliant : Bool := false
  doraCompliant : Bool := false
  eidasReady : Bool := false

/-- The body of the loop. -/
def assessOne (report : QuantumMigrationReport) (asset : CryptoAsset) : QuantumMigrationReport :=
  let asset := { asset with quantumRisk := assessCryptoAsset asset }
  let report := { report with assets := report.assets ++ [asset] }
  let recommended := report.recommendations ++
    [buildRecommendation (report.recommendations.length + 1) asset]
  match asset.quantumRisk with
  | .critical =>
    { report with criticalAssets := report.criticalAssets + 1, recommendations := recommended }
  | .high =>
    { report with highRiskAssets := report.highRiskAssets + 1, recommendations := recommended }
  | .safe => { report with safeAssets := report.safeAssets + 1 }
  | _ => report

/-- The score counts the safe assets twice: among all that are not at risk, and again. -/
def score (report : QuantumMigrationReport) : ℚ :=
  if report.totalAssets > 0 then
    let safeCount : ℤ := report.safeAssets +
      (report.totalAssets - report.criticalAssets - report.highRiskAssets)
    safeCount / report.totalAssets * 100
  else 0

def generateMigrationReport (tenantID : String) (assets : List CryptoAsset) :
    QuantumMigrationReport :=
  let report := assets.foldl assessOne { tenantID := tenantID, totalAssets := assets.length }
  let readinessScore := score report
  { report with
    readinessScore
    bsiCompliant := decide (report.criticalAssets = 0) && decide (readinessScore ≥ 80)
    doraCompliant := decide (report.criticalAssets = 0)
    eidasReady := decide (readinessScore ≥ 90) }

end RivicQ.Quantum.Migration
