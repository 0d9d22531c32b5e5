import RivicQ.Certeng.Certificates
import RivicQ.Cryptoart.Plans
import RivicQ.Lib.FilePaths
import RivicQ.Lib.Groups

namespace RivicQ.Identity.Analyze

open RivicQ.Lib.Bytes RivicQ.Lib.Groups RivicQ.Certeng.Certificates RivicQ.Cryptoscan.Detect
open RivicQ.Cryptoart.Graphs RivicQ.Cryptoart.Plans
open RivicQ.Certeng.Assess (RiskReport assess)
open RivicQ.Lib.Base64 (hexString)
open RivicQ.Lib.FilePaths (ext)
open RivicQ.Lib.GoStrings (CaseMap)

/-- The container of an identity artifact. -/
inductive Format where
  | certificate | certificateBundle | identityConfig | unknown

def Format.text : Format → String
  | .certificate => "certificate"
  | .certificateBundle => "certificate_bundle"
  | .identityConfig => "identity_config"
  | .unknown => "unknown"

structure Options where
  tenantID : String := ""
  deviceLifetime : String := ""

/-- A parsed certificate, its risk, and its place among the others. -/
structure CertificateFinding where
  metadata : Metadata
  risk : RiskReport
  inBundle : Bool
  chainPos : Nat

/-- A non-secret identity reference. -/
structure IdentityRef where
  id : String
  type : String
  name : String
  markers : List String := []
  source : String
  note : String

/-- The certificates of an issuing authority. -/
structure PKIRef where
  issuer : String
  certificateCount : Nat
  selfSigned : Bool

structure Report where
  id : String
  tenantID : String
  fileName : String
  sizeBytes : Nat
  sha256 : String
  format : Format
  profileID : String
  certificates : List CertificateFinding
  identities : List IdentityRef := []
  pki : List PKIRef
  libraries : List LibraryFinding
  algorithms : List AlgorithmFinding
  cryptoAPIs : List APIFinding
  protocols : List ProtocolFinding
  rules : List RuleFinding
  cbom : List BOMItem := []
  pqc : PQCPlan := ⟨"", "", [], [], ""⟩
  graph : Graph := {}
  deviceLifetime : String
  scannedAt : Time
  durationMS : Int := 0

def classifyFormat (name : String) (certCount : Nat) : Format :=
  if certCount > 1 then .certificateBundle
  else if certCount = 1 then .certificate
  else if ext name ∈ [".pem", ".crt", ".cer", ".der", ".p7b", ".p7c"] then .certificate
  else if ext name ∈ [".json", ".yaml", ".yml", ".conf", ".cfg", ".txt"] then .identityConfig
  else .unknown

def identityTypeForRule (id : String) : String :=
  match id with
  | "euicc" => "euicc"
  | "subscriber_identity" => "subscriber"
  | _ => "device"

def identityType (r : RuleFinding) : String :=
  match r.kind with
  | "device_identity" => identityTypeForRule r.id
  | "root_of_trust" => "secure_element"
  | _ => "device"

def ruleIdentity (rep : Report) (r : RuleFinding) : IdentityRef where
  id := "identity:" ++ rep.id ++ ":" ++ r.id
  type := identityType r
  name := r.label
  markers := r.markers
  source := "identity-static"
  note := r.note

def certIdentity (rep : Report) : IdentityRef where
  id := "identity:" ++ rep.id ++ ":cert-identity"
  type := "device"
  name := "certificate-bound device identity"
  source := "identity-static"
  note := "Derived from embedded X.509 certificate subject(s). No credential values read."

def buildIdentities (rep : Report) (rules : List RuleFinding) : List IdentityRef :=
  (rules.map (ruleIdentity rep) ++
    if rep.certificates.length > 0 then [certIdentity rep] else []).mergeSort fun a b => a.id ≤ b.id

/-- One reference for each issuer, in the order of their names. -/
def buildPKI (certs : List CertificateFinding) : List PKIRef :=
  (group PKIRef.issuer
    (fun ref c => { ref with certificateCount := ref.certificateCount + c.certificateCount
                             selfSigned := ref.selfSigned || c.selfSigned })
    (certs.map fun c => ⟨c.metadata.issuer, 1, c.metadata.selfSigned⟩)).values.mergeSort
    fun a b => a.issuer ≤ b.issuer

/-- One finding for each algorithm, in the order of their names. -/
def dedupeAlgorithms (algorithms : List AlgorithmFinding) : List AlgorithmFinding :=
  (group AlgorithmFinding.algorithm
    (fun prev a => { prev with referenced := prev.referenced || a.referenced
                               confidence := max prev.confidence a.confidence })
    algorithms).values.mergeSort fun a b => a.algorithm ≤ b.algorithm

def shortFP (fp : String) : String :=
  if fp.length > 16 then String.ofList (fp.toList.take 16) else fp

section Inventory

def algorithmItem (rep : Report) (a : AlgorithmFinding) : BOMItem where
  type := "algorithm"
  name := a.algorithm
  quantumSafe := a.quantumSafe
  pqcStatus := a.pqcStatus
  riskLevel := riskFromPQC a.pqcStatus
  source := "identity-static"
  evidence := a.evidence
  location := rep.fileName

def libraryItem (rep : Report) (l : LibraryFinding) : BOMItem where
  type := "crypto_library"
  name := l.library
  quantumSafe := false
  pqcStatus := "library_present"
  riskLevel := "INFO"
  source := "identity-static"
  evidence := "markers: " ++ ", ".intercalate l.markers
  location := rep.fileName

def certificateItem (rep : Report) (c : CertificateFinding) : BOMItem where
  type := "certificate"
  name := c.metadata.subject
  keySize := c.metadata.keySize
  quantumSafe := c.risk.quantumStatus = "quantum_safe"
  pqcStatus := c.risk.quantumStatus
  riskLevel := c.risk.quantumRisk
  source := "identity-static"
  evidence := "sig=" ++ c.metadata.signatureAlgorithm ++ " pub=" ++ c.metadata.publicKeyAlgorithm
  location := rep.fileName

def protocolItem (rep : Report) (p : ProtocolFinding) : BOMItem where
  type := "protocol"
  name := p.protocol
  quantumSafe := false
  pqcStatus := "protocol"
  riskLevel := "INFO"
  source := "identity-static"
  evidence := "markers: " ++ ", ".intercalate p.markers
  location := rep.fileName

def buildCBOM (rep : Report) : List BOMItem :=
  (rep.algorithms.map (algorithmItem rep) ++ rep.libraries.map (libraryItem rep) ++
    rep.certificates.map (certificateItem rep) ++
    rep.protocols.map (protocolItem rep)).mergeSort BOMItem.before

variable (cm : CaseMap)

def assetID (rep : Report) : String := "identity-asset:" ++ rep.id

def graphAsset (rep : Report) : Object where
  id := assetID rep
  tenantID := rep.tenantID
  type := .sim
  name := rep.fileName
  source := "identity-static"
  location := rep.fileName
  confidence := 80
  timestamp := rep.scannedAt
  risk := highestRisk cm rep.cbom
  labels := [("format", rep.format.text), ("sha256", rep.sha256)]

def graphIdentity (rep : Report) (g : Graph) (id : IdentityRef) : Graph :=
  (g.add {
    id := id.id, tenantID := rep.tenantID, type := .identity, name := id.name
    source := "identity-static", confidence := 75, timestamp := rep.scannedAt
    evidence := id.markers, labels := [("identity_type", id.type)] }).relate
  (assetID rep) id.id .contains "identity asset contains identity"

/-- A certificate by its place in the list, with its issuer and the first identity. -/
def graphCertificate (rep : Report) (g : Graph) (c : CertificateFinding × Nat) : Graph :=
  let m := c.1.metadata
  let cID := "cert:" ++ rep.id ++ ":" ++ toString c.2
  let pkiID := "pki:" ++ m.issuer
  let g := g.add {
    id := cID, tenantID := rep.tenantID, type := .certificate, name := m.subject
    source := "identity-static", confidence := 90, timestamp := rep.scannedAt
    quantumRisk := c.1.risk.quantumRisk, pqcStatus := c.1.risk.quantumStatus
    risk := c.1.risk.classicalRisk, evidence := [m.fingerprintSHA256]
    labels := [("issuer", m.issuer), ("sig", m.signatureAlgorithm),
      ("pub", m.publicKeyAlgorithm)] }
  let g := g.add {
    id := pkiID, tenantID := rep.tenantID, type := .pki, name := m.issuer
    source := "identity-static", confidence := 70, timestamp := rep.scannedAt }
  let g := g.relate cID pkiID .issuedBy "certificate issued by PKI"
  match rep.identities with
  | [] => g
  | id :: _ => g.relate cID id.id .belongsTo "certificate belongs to identity"

def graphLibrary (rep : Report) (g : Graph) (l : LibraryFinding) : Graph :=
  let libID := "lib:" ++ rep.id ++ ":" ++ l.library
  (g.add {
    id := libID, tenantID := rep.tenantID, type := .cryptoLib, name := l.library
    source := "identity-static", confidence := l.confidence, timestamp := rep.scannedAt
    evidence := l.markers }).relate
  (assetID rep) libID .uses "identity asset uses crypto library"

def buildGraph (rep : Report) : Graph :=
  let g := rep.identities.foldl (graphIdentity rep) (({} : Graph).add (graphAsset cm rep))
  let g := rep.certificates.zipIdx.foldl (graphCertificate rep) g
  rep.libraries.foldl (graphLibrary rep) g

end Inventory

/-- What the analysis rests on: the case tables, the decoders of the standard library, the fresh id
of the report and the time. -/
structure Setup where
  cm : CaseMap
  decoders : Decoders
  id : String
  now : Time

variable (x : Setup) (p : Profile) (opts : Options)

/-- The findings of the algorithms of a certificate. -/
def certificateAlgorithms (c : CertificateFinding) : List AlgorithmFinding :=
  (algorithmsFromCert x.cm c.metadata.publicKeyAlgorithm c.metadata.signatureAlgorithm).map
    fun name => algorithm x.cm name
      ("certificate " ++ shortFP c.metadata.fingerprintSHA256 ++ " (" ++ name ++ ")")

def certificateFinding (inBundle : Bool) (c : Metadata × Nat) : CertificateFinding :=
  ⟨c.1, assess x.cm c.1 x.now opts.deviceLifetime, inBundle, c.2⟩

/-- The identities, the inventory and the plan of what is found. -/
def inventory (rep : Report) : Report :=
  let rep := { rep with identities := buildIdentities rep rep.rules }
  { rep with cbom := buildCBOM rep
             pqc := buildPQCPlan rep.fileName rep.deviceLifetime rep.algorithms }

/-- The strings of the data that the rules are looked for in. -/
def strings (data : Bytes) : List String := extractStrings 4 200000 data

/-- The certificates and the detections of the data. -/
def detections (name : String) (data : Bytes) : Report :=
  let certs := extractFromBytes x.decoders data name
  let certificates := certs.zipIdx.map (certificateFinding x opts (certs.length > 1))
  let det := detect x.cm p (strings data)
  { id := x.id
    tenantID := opts.tenantID
    fileName := name
    sizeBytes := data.length
    sha256 := hexString (x.decoders.sha256 data)
    format := classifyFormat name certs.length
    profileID := p.id
    certificates
    pki := buildPKI certificates
    libraries := det.libraries
    algorithms :=
      dedupeAlgorithms (det.algorithms ++ certificates.flatMap (certificateAlgorithms x))
    cryptoAPIs := det.cryptoAPIs
    protocols := det.protocols
    rules := det.rules
    deviceLifetime := opts.deviceLifetime
    scannedAt := x.now }

/-- The analysis of an artifact, which takes so many milliseconds. -/
def analyzeBytes (elapsedMS : Int) (name : String) (data : Bytes) : Report :=
  let rep := inventory (detections x p opts name data)
  { rep with graph := buildGraph x.cm rep, durationMS := elapsedMS }

end RivicQ.Identity.Analyze
