import Mathlib.Data.Set.Basic
import RivicQ.Certeng.Certificates
import RivicQ.Cryptoart.Graphs
import RivicQ.Cryptoscan.Detect
import RivicQ.Firmware.Formats

namespace RivicQ.Firmware.Reports

open RivicQ.Certeng.Certificates RivicQ.Cryptoart.Graphs RivicQ.Cryptoscan.Detect
open RivicQ.Firmware.Formats
open RivicQ.Certeng.Assess (RiskReport)

/-- A parsed certificate and its risk. -/
structure CertificateFinding where
  metadata : Metadata
  risk : RiskReport

/-- The summary of an archive member. -/
structure ChildReport where
  name : String
  format : Format
  sizeBytes : Nat
  libraries : List String
  algorithms : List String
  warnings : List String

structure Report where
  id : String
  tenantID : String
  fileName : String
  sizeBytes : Nat
  sha256 : String
  format : Format
  arch : String := ""
  stringCount : Nat := 0
  libraries : List LibraryFinding := []
  algorithms : List AlgorithmFinding := []
  cryptoAPIs : List APIFinding := []
  protocols : List ProtocolFinding := []
  rules : List RuleFinding := []
  certificates : List CertificateFinding := []
  children : List ChildReport := []
  cbom : List BOMItem := []
  graph : Graph := {}
  deviceLifetime : String
  warnings : List String := []
  scannedAt : Time

section Names

/-- The names of what a report finds, and the fingerprints of its certificates. -/
@[ext] structure Named where
  libraries : Set String
  algorithms : Set String
  cryptoAPIs : Set String
  protocols : Set String
  rules : Set String
  certificates : Set String

def namesOf {F : Type} (name : F → String) (findings : List F) : Set String :=
  {n | n ∈ findings.map name}

def fingerprint (c : CertificateFinding) : String := c.metadata.fingerprintSHA256

def Report.named (rep : Report) : Named where
  libraries := namesOf LibraryFinding.library rep.libraries
  algorithms := namesOf AlgorithmFinding.algorithm rep.algorithms
  cryptoAPIs := namesOf APIFinding.api rep.cryptoAPIs
  protocols := namesOf ProtocolFinding.protocol rep.protocols
  rules := namesOf RuleFinding.id rep.rules
  certificates := namesOf fingerprint rep.certificates

end Names

section Inventory

def libraryItem (rep : Report) (l : LibraryFinding) : BOMItem where
  type := "crypto_library"
  name := l.library
  quantumSafe := false
  pqcStatus := "library_present"
  riskLevel := "INFO"
  source := "firmware-static"
  evidence := "markers: " ++ ", ".intercalate l.markers
  location := rep.fileName

def algorithmItem (rep : Report) (a : AlgorithmFinding) : BOMItem where
  type := "algorithm"
  name := a.algorithm
  quantumSafe := a.quantumSafe
  pqcStatus := a.pqcStatus
  riskLevel := riskFromPQC a.pqcStatus
  source := "firmware-static"
  evidence := a.evidence
  location := rep.fileName

def certificateItem (rep : Report) (c : CertificateFinding) : BOMItem where
  type := "certificate"
  name := c.metadata.subject
  keySize := c.metadata.keySize
  quantumSafe := c.risk.quantumStatus = "quantum_safe"
  pqcStatus := c.risk.quantumStatus
  riskLevel := c.risk.quantumRisk
  source := "firmware-static"
  evidence := "sig=" ++ c.metadata.signatureAlgorithm ++ " pub=" ++ c.metadata.publicKeyAlgorithm
  location := rep.fileName

def protocolItem (rep : Report) (p : ProtocolFinding) : BOMItem where
  type := "protocol"
  name := p.protocol
  quantumSafe := false
  pqcStatus := "protocol"
  riskLevel := "INFO"
  source := "firmware-static"
  evidence := "markers: " ++ ", ".intercalate p.markers
  location := rep.fileName

def buildCBOM (rep : Report) : List BOMItem :=
  (rep.algorithms.map (algorithmItem rep) ++ rep.libraries.map (libraryItem rep) ++
    rep.certificates.map (certificateItem rep) ++
    rep.protocols.map (protocolItem rep)).mergeSort BOMItem.before

def riskRank : String → Nat
  | "LOW" => 1
  | "MEDIUM" => 2
  | "HIGH" => 3
  | "CRITICAL" => 4
  | _ => 0

def highestRisk (rep : Report) : String :=
  rep.algorithms.foldl
    (fun best a => if riskRank (riskFromPQC a.pqcStatus) > riskRank best
      then riskFromPQC a.pqcStatus else best) "INFO"

def firmwareID (rep : Report) : String := "firmware:" ++ rep.id

def deviceID (rep : Report) : String := "device:" ++ rep.id

/-- The firmware, and the device that contains it. -/
def graphRoot (rep : Report) : Graph :=
  ((({} : Graph).add {
      id := firmwareID rep, tenantID := rep.tenantID, type := .firmware, name := rep.fileName
      source := "firmware-static", location := rep.fileName, confidence := 100
      timestamp := rep.scannedAt, risk := highestRisk rep
      labels := [("format", rep.format.text), ("arch", rep.arch), ("sha256", rep.sha256)] }).add {
      id := deviceID rep, tenantID := rep.tenantID, type := .device
      name := "device for " ++ rep.fileName, source := "firmware-static", confidence := 60
      timestamp := rep.scannedAt
      labels := [("expected_device_lifetime", rep.deviceLifetime)] }).relate
    (deviceID rep) (firmwareID rep) .contains "device contains firmware"

def graphLibrary (rep : Report) (g : Graph) (l : LibraryFinding) : Graph :=
  let libID := "lib:" ++ rep.id ++ ":" ++ l.library
  (g.add {
    id := libID, tenantID := rep.tenantID, type := .cryptoLib, name := l.library
    source := "firmware-static", confidence := l.confidence, timestamp := rep.scannedAt
    evidence := l.markers }).relate
  (firmwareID rep) libID .uses "firmware uses crypto library"

def graphAlgorithm (rep : Report) (g : Graph) (a : AlgorithmFinding) : Graph :=
  let algID := "alg:" ++ a.algorithm
  (g.add {
    id := algID, tenantID := rep.tenantID, type := .algorithm, name := a.algorithm
    source := "firmware-static", confidence := a.confidence, timestamp := rep.scannedAt
    quantumRisk := a.quantumRisk, pqcStatus := a.pqcStatus, evidence := [a.evidence] }).relate
  (firmwareID rep) algID .uses "firmware references algorithm"

def graphProtocol (rep : Report) (g : Graph) (p : ProtocolFinding) : Graph :=
  let pID := "proto:" ++ p.protocol
  (g.add {
    id := pID, tenantID := rep.tenantID, type := .protocol, name := p.protocol
    source := "firmware-static", confidence := 80, timestamp := rep.scannedAt
    evidence := p.markers }).relate
  (firmwareID rep) pID .uses "firmware uses protocol"

/-- A certificate by its place in the list, with the identity of the device and the issuer. -/
def graphCertificate (rep : Report) (g : Graph) (c : CertificateFinding × Nat) : Graph :=
  let m := c.1.metadata
  let cID := "cert:" ++ rep.id ++ ":" ++ toString c.2
  let identID := "identity:" ++ rep.id
  let pkiID := "pki:" ++ m.issuer
  let g := g.add {
    id := cID, tenantID := rep.tenantID, type := .certificate, name := m.subject
    source := "firmware-static", confidence := 90, timestamp := rep.scannedAt
    quantumRisk := c.1.risk.quantumRisk, pqcStatus := c.1.risk.quantumStatus
    risk := c.1.risk.classicalRisk, evidence := [m.fingerprintSHA256]
    labels := [("issuer", m.issuer), ("sig", m.signatureAlgorithm),
      ("pub", m.publicKeyAlgorithm)] }
  let g := g.add {
    id := identID, tenantID := rep.tenantID, type := .identity, name := "device identity"
    source := "firmware-static", confidence := 70, timestamp := rep.scannedAt }
  let g := g.relate cID identID .belongsTo "certificate belongs to device identity"
  let g := g.relate identID (deviceID rep) .belongsTo "identity belongs to device"
  let g := g.add {
    id := pkiID, tenantID := rep.tenantID, type := .pki, name := m.issuer
    source := "firmware-static", confidence := 70, timestamp := rep.scannedAt }
  g.relate cID pkiID .issuedBy "certificate issued by PKI"

def buildGraph (rep : Report) : Graph :=
  let g := rep.libraries.foldl (graphLibrary rep) (graphRoot rep)
  let g := rep.algorithms.foldl (graphAlgorithm rep) g
  let g := rep.protocols.foldl (graphProtocol rep) g
  rep.certificates.zipIdx.foldl (graphCertificate rep) g

/-- The inventory of a report whose findings are in order. -/
def withInventory (rep : Report) : Report :=
  { rep with cbom := buildCBOM rep, graph := buildGraph rep }

end Inventory

end RivicQ.Firmware.Reports
