import RivicQ.Lib.GoStrings

namespace RivicQ.Compliance.Engine

open RivicQ.Lib.GoStrings

structure CryptoAsset where
  id : String
  name : String
  algorithm : String
  keySize : Int
  usage : String

structure PolicyViolation where
  framework : String
  article : String
  description : String
  severity : String
  remediation : String

structure ComplianceReport where
  assetID : String
  assetName : String
  violations : List PolicyViolation
  frameworks : List String
  compliant : Bool

def vulnerableAlgorithms : List String := ["RSA", "ECDSA", "ECDH", "DH", "DSA", "ELGAMAL"]

def isQuantumVulnerable (cm : CaseMap) (algorithm : String) : Bool :=
  vulnerableAlgorithms.any fun v => hasPrefix (toUpper cm algorithm) v

def frameworks : List String := ["DORA", "NIS2", "NIST-CSF", "CRA", "ENISA"]

def doraViolation (asset : CryptoAsset) : PolicyViolation where
  framework := "DORA"
  article := "Art.9"
  description := "Algorithm " ++ asset.algorithm ++ " (key size " ++ toString asset.keySize ++
    ") is vulnerable to Shor's algorithm and does not meet the cryptographic resilience " ++
    "requirements of DORA Article 9."
  severity := "HIGH"
  remediation := "Migrate to a NIST-standardised post-quantum algorithm (ML-KEM-768 / FIPS 203 " ++
    "for key exchange, ML-DSA-65 / FIPS 204 for signatures)."

def nis2Violation (asset : CryptoAsset) : PolicyViolation where
  framework := "NIS2"
  article := "Art.21"
  description := "Algorithm " ++ asset.algorithm ++ " is quantum-vulnerable. NIS2 Article 21 " ++
    "requires appropriate technical measures to manage risks to the security of network and " ++
    "information systems."
  severity := "HIGH"
  remediation := "Adopt hybrid PQC+classical key exchange and plan full migration to NIST FIPS " ++
    "203/204/205 algorithms before the EU quantum-readiness deadline."

def nistCSFViolation (asset : CryptoAsset) : PolicyViolation where
  framework := "NIST-CSF"
  article := "PR.DS-2"
  description := "Algorithm " ++ asset.algorithm ++ " used for " ++ asset.usage ++
    " does not provide adequate protection against cryptographically relevant quantum " ++
    "computers per NIST CSF PR.DS-2."
  severity := "MEDIUM"
  remediation := "Follow NIST SP 800-208 migration guidance; prioritise assets with long-lived " ++
    "data or key exchange functions."

def craViolation (asset : CryptoAsset) : PolicyViolation where
  framework := "CRA"
  article := "Annex I §1(2)"
  description := "Product using " ++ asset.algorithm ++ " must be updated to maintain adequate " ++
    "cryptographic strength throughout its supported lifetime per EU Cyber Resilience Act " ++
    "Annex I §1(2)."
  severity := "MEDIUM"
  remediation := "Include a cryptographic agility mechanism and publish a PQC migration " ++
    "timeline in the product's security advisory."

def enisaViolation (asset : CryptoAsset) : PolicyViolation where
  framework := "ENISA"
  article := "PQC Guidelines §4"
  description := "Algorithm " ++ asset.algorithm ++ " is classified as a quantum-risky algorithm " ++
    "by ENISA Post-Quantum Cryptography guidelines §4. Continued use increases " ++
    "harvest-now-decrypt-later risk."
  severity := "HIGH"
  remediation := "Consult the ENISA PQC migration roadmap and begin inventory of all assets " ++
    "using quantum-vulnerable algorithms."

def violations (cm : CaseMap) (asset : CryptoAsset) : List PolicyViolation :=
  if isQuantumVulnerable cm asset.algorithm then
    [doraViolation asset, nis2Violation asset, nistCSFViolation asset, craViolation asset,
      enisaViolation asset]
  else []

/-- The report on an asset, which is checked against every framework. -/
def evaluate (cm : CaseMap) : Option CryptoAsset → Except String ComplianceReport
  | none => .error "compliance evaluation: asset must not be nil"
  | some asset =>
    let found := violations cm asset
    .ok { assetID := asset.id, assetName := asset.name, violations := found
          frameworks := frameworks, compliant := decide (found.length = 0) }

variable {cm : CaseMap} {asset : CryptoAsset} {report : ComplianceReport}

theorem violations_eq_nil_iff :
    violations cm asset = [] ↔ isQuantumVulnerable cm asset.algorithm = false := by
  rw [violations]
  cases isQuantumVulnerable cm asset.algorithm with
  | false => exact iff_of_true rfl rfl
  | true => exact iff_of_false nofun nofun

theorem compliant_iff (h : evaluate cm (some asset) = .ok report) :
    report.compliant = true ↔ isQuantumVulnerable cm asset.algorithm = false := by
  obtain rfl := Except.ok.inj h
  rw [decide_eq_true_iff, List.length_eq_zero_iff, violations_eq_nil_iff]

/-- A violation is of one of the frameworks, and each framework has one if any has. -/
theorem map_framework_violations (h : violations cm asset ≠ []) :
    (violations cm asset).map PolicyViolation.framework = frameworks := by
  rw [Ne, violations_eq_nil_iff, Bool.not_eq_false] at h
  rw [violations, if_pos h]
  rfl

end RivicQ.Compliance.Engine
