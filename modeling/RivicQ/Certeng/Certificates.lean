import RivicQ.Lib.Bytes
import RivicQ.Lib.GoStrings

namespace RivicQ.Certeng.Certificates

open RivicQ.Lib.Bytes RivicQ.Lib.Base64

/-- Moments in nanoseconds. -/
abbrev Time := Int

/-- What the sizes of keys are taken from; a curve has a name and a size. -/
inductive PublicKey where
  | rsa (bits : Nat)
  | ecdsa (curve : Option (String × Nat))
  | ed25519
  | sized (bytes : Int)
  | other

/-- What `x509.ParseCertificate` gives. The usages of the key are bits. -/
structure Certificate where
  raw : Bytes
  subject : String
  issuer : String := ""
  serialNumber : String := ""
  notBefore : Time := 0
  notAfter : Time := 0
  publicKeyAlgorithm : String
  publicKey : PublicKey := .other
  signatureAlgorithm : String
  dnsNames : List String := []
  ipAddresses : List String := []
  emailAddresses : List String := []
  uris : List String := []
  isCA : Bool := false
  keyUsage : Nat := 0

structure PEMBlock where
  type : String
  bytes : Bytes

/-- The decoders of `encoding/pem` and `crypto/x509`. -/
structure Decoders where
  /-- The first PEM block of some data, and the rest of the data. -/
  pemDecode : Bytes → Option (PEMBlock × Bytes)
  parseCertificate : Bytes → Option Certificate
  sha256 : Bytes → Bytes

structure Metadata where
  subject : String
  issuer : String := ""
  serial : String := ""
  notBefore : Time := 0
  notAfter : Time := 0
  publicKeyAlgorithm : String
  keySize : Int := 0
  curve : String := ""
  signatureAlgorithm : String
  san : List String := []
  fingerprintSHA256 : String := ""
  isCA : Bool := false
  selfSigned : Bool := false
  usage : List String := []
  source : String := ""
  deriving DecidableEq

def keySize : PublicKey → Int
  | .rsa bits => bits
  | .ecdsa curve => (curve.map (·.2)).getD 0
  | .ed25519 => 256
  | .sized bytes => bytes * 8
  | .other => 0

def curveName : PublicKey → String
  | .ecdsa curve => (curve.map (·.1)).getD ""
  | _ => ""

def usageNames (usage : Nat) : List String :=
  ([(1, "digital_signature"), (4, "key_encipherment"), (32, "cert_sign"), (64, "crl_sign"),
    (16, "key_agreement")].filter fun u => usage &&& u.1 ≠ 0).map (·.2)

variable (dec : Decoders)

def fromCert (cert : Certificate) (source : String) : Metadata where
  subject := cert.subject
  issuer := cert.issuer
  serial := cert.serialNumber
  notBefore := cert.notBefore
  notAfter := cert.notAfter
  publicKeyAlgorithm := cert.publicKeyAlgorithm
  keySize := keySize cert.publicKey
  curve := curveName cert.publicKey
  signatureAlgorithm := cert.signatureAlgorithm
  san := cert.dnsNames ++ cert.ipAddresses ++ cert.emailAddresses ++ cert.uris
  fingerprintSHA256 := hexString (dec.sha256 cert.raw)
  isCA := cert.isCA
  selfSigned := cert.subject = cert.issuer
  usage := if cert.keyUsage ≠ 0 then usageNames cert.keyUsage else []
  source := source

def parseDER (der : Bytes) (source : String) : Option Metadata :=
  (dec.parseCertificate der).map fun cert => fromCert dec cert source

/-- The blocks of a PEM stream, at most so many. -/
def pemBlocks : Nat → Bytes → List PEMBlock
  | 0, _ => []
  | n + 1, rest =>
    match dec.pemDecode rest with
    | none => []
    | some (block, rest) => block :: pemBlocks n rest

/-- `bytes.Index` -/
def index (sep : Bytes) : Bytes → Option Nat
  | [] => if sep = [] then some 0 else none
  | b :: s => if sep.isPrefixOf (b :: s) then some 0 else (index sep s).map (· + 1)

def beginMark : Bytes := ascii "-----BEGIN CERTIFICATE-----"

def endMark : Bytes := ascii "-----END CERTIFICATE-----"

/-- The parts of some data from a begin mark to the next end mark, at most so many. -/
def segments : Nat → Bytes → List Bytes
  | 0, _ => []
  | n + 1, data =>
    match index beginMark data with
    | none => []
    | some start =>
      match index endMark (data.drop start) with
      | none => []
      | some e =>
        (data.drop start).take (e + endMark.length) ::
          segments n (data.drop (start + e + endMark.length))

/-- The certificate of a block, unless there is one with its fingerprint already. -/
def addBlock (source : String) (out : List Metadata) (block : PEMBlock) : List Metadata :=
  if block.type = "CERTIFICATE" then
    match parseDER dec block.bytes source with
    | none => out
    | some m =>
      if out.any fun o => o.fingerprintSHA256 = m.fingerprintSHA256 then out else out ++ [m]
  else out

/-- The certificates of PEM blocks, and of PEM blocks embedded in binaries. A block takes some of
the data, so that there are no more blocks than bytes. -/
def parsePEM (data : Bytes) (source : String) : List Metadata :=
  let blocks := pemBlocks dec data.length data ++
    (segments data.length data).filterMap fun seg => (dec.pemDecode (seg ++ [0x0a])).map (·.1)
  blocks.foldl (addBlock dec source) []

/-- PEM blocks first, then a whole-file DER attempt. -/
def extractFromBytes (data : Bytes) (source : String) : List Metadata :=
  let out := parsePEM dec data source
  if out.length > 0 then out else (parseDER dec data source).toList

section Absent

variable {sep s : Bytes}

theorem index_eq_none (h : ¬ sep <:+: s) : index sep s = none := by
  induction s with
  | nil =>
    have hsep : sep ≠ [] := fun he => h (he ▸ List.nil_infix)
    rw [index, if_neg hsep]
  | cons b s ih =>
    have hfront : ¬ sep.isPrefixOf (b :: s) = true := fun hp =>
      h (List.isPrefixOf_iff_prefix.mp hp).isInfix
    rw [index, if_neg hfront, ih fun hs => h (List.infix_cons hs)]
    rfl

/-- Data without the begin mark has no part that looks like a certificate. -/
theorem segments_eq_nil (n : Nat) (h : ¬ beginMark <:+: s) : segments n s = [] := by
  cases n with
  | zero => rfl
  | succ n => rw [segments, index_eq_none h]

theorem parsePEM_eq_nil {dec : Decoders} {data : Bytes} (hpem : dec.pemDecode data = none)
    (hmark : ¬ beginMark <:+: data) (source : String) : parsePEM dec data source = [] := by
  have hblocks : pemBlocks dec data.length data = [] := by
    cases data.length with
    | zero => rfl
    | succ n => rw [pemBlocks, hpem]
  rw [parsePEM, hblocks, segments_eq_nil _ hmark]
  rfl

theorem extractFromBytes_pem_none {dec : Decoders} {data : Bytes}
    (hpem : dec.pemDecode data = none) (hmark : ¬ beginMark <:+: data) (source : String) :
    extractFromBytes dec data source = (parseDER dec data source).toList := by
  simp only [extractFromBytes, parsePEM_eq_nil hpem hmark]
  rfl

end Absent

section Sources

variable (dec : Decoders) (source source' : String)

/-- The metadata of a certificate as it is found in another source. -/
def Metadata.relabel (m : Metadata) : Metadata := { m with source := source }

theorem parseDER_relabel (der : Bytes) :
    parseDER dec der source' = (parseDER dec der source).map (Metadata.relabel source') := by
  simp only [parseDER, Option.map_map]
  rfl

theorem addBlock_relabel (out : List Metadata) (block : PEMBlock) :
    addBlock dec source' (out.map (Metadata.relabel source')) block =
      (addBlock dec source out block).map (Metadata.relabel source') := by
  unfold addBlock
  rw [parseDER_relabel dec source source']
  by_cases htype : block.type = "CERTIFICATE"
  · rw [if_pos htype, if_pos htype]
    cases hparse : parseDER dec block.bytes source with
    | none => rfl
    | some m =>
      have hany : (out.map (Metadata.relabel source')).any (fun o =>
          o.fingerprintSHA256 = (m.relabel source').fingerprintSHA256) =
          out.any fun o => o.fingerprintSHA256 = m.fingerprintSHA256 := by
        rw [List.any_map]
        rfl
      change (if (out.map (Metadata.relabel source')).any (fun o =>
          o.fingerprintSHA256 = (m.relabel source').fingerprintSHA256) then _ else _) = _
      rw [hany]
      change _ = (if out.any (fun o => o.fingerprintSHA256 = m.fingerprintSHA256) then out
        else out ++ [m]).map (Metadata.relabel source')
      rw [apply_ite (List.map (Metadata.relabel source')), List.map_append]
      rfl
  · rw [if_neg htype, if_neg htype]

/-- The source of some data is a label of its certificates, and nothing else. -/
theorem extractFromBytes_relabel (data : Bytes) :
    extractFromBytes dec data source' =
      (extractFromBytes dec data source).map (Metadata.relabel source') := by
  have hpem : parsePEM dec data source' =
      (parsePEM dec data source).map (Metadata.relabel source') := by
    have hfold : ∀ (blocks : List PEMBlock) (out : List Metadata),
        blocks.foldl (addBlock dec source') (out.map (Metadata.relabel source')) =
          (blocks.foldl (addBlock dec source) out).map (Metadata.relabel source') := by
      intro blocks
      induction blocks with
      | nil => exact fun out => rfl
      | cons block blocks ih =>
        intro out
        rw [List.foldl_cons, List.foldl_cons, addBlock_relabel dec source source', ih]
    exact hfold _ []
  simp only [extractFromBytes, hpem, List.length_map, parseDER_relabel dec source source' data,
    Option.toList_map]
  exact (apply_ite (List.map (Metadata.relabel source')) _ _ _).symm

end Sources

section Parsed

variable {dec : Decoders} {source : String} {m : Metadata}

theorem parsed_addBlock {out : List Metadata} {block : PEMBlock}
    (hout : ∀ m ∈ out, ∃ cert, m = fromCert dec cert source)
    (h : m ∈ addBlock dec source out block) : ∃ cert, m = fromCert dec cert source := by
  unfold addBlock at h
  split at h
  case isFalse => exact hout m h
  split at h
  case h_1 => exact hout m h
  case h_2 parsed hparse =>
    split at h
    · exact hout m h
    · obtain hm | hm := List.mem_append.mp h
      · exact hout m hm
      · obtain rfl := List.mem_singleton.mp hm
        obtain ⟨cert, -, rfl⟩ := Option.map_eq_some_iff.mp hparse
        exact ⟨cert, rfl⟩

/-- What is extracted from some data is about certificates that were parsed. -/
theorem parsed_extractFromBytes {data : Bytes} (h : m ∈ extractFromBytes dec data source) :
    ∃ cert, m = fromCert dec cert source := by
  have hfold : ∀ (blocks : List PEMBlock) (out : List Metadata),
      (∀ m ∈ out, ∃ cert, m = fromCert dec cert source) →
        ∀ m ∈ blocks.foldl (addBlock dec source) out, ∃ cert, m = fromCert dec cert source := by
    intro blocks
    induction blocks with
    | nil => exact fun out hout => hout
    | cons block blocks ih => exact fun out hout => ih _ fun m hm => parsed_addBlock hout hm
  rw [extractFromBytes] at h
  split_ifs at h
  · exact hfold _ [] nofun m h
  · obtain ⟨cert, -, rfl⟩ := Option.map_eq_some_iff.mp (Option.mem_toList.mp h)
    exact ⟨cert, rfl⟩

end Parsed

end RivicQ.Certeng.Certificates

namespace RivicQ.Certeng.Assess

open RivicQ.Lib.GoStrings RivicQ.Certeng.Certificates

structure RiskReport where
  classicalRisk : String
  quantumStatus : String
  quantumRisk : String
  expiryStatus : String
  daysToExpiry : Int
  migrationPriority : String
  evidence : List String

variable (cm : CaseMap)

def normalizeAlg (a : String) : String :=
  let u := toUpper cm a
  if contains u "RSA" then "RSA"
  else if contains u "ECDSA" || contains u "ECC" then "ECC"
  else if contains u "ED25519" || contains u "EDDSA" then "EdDSA"
  else if contains u "ML-DSA" || contains u "MLDSA" then "ML-DSA"
  else if contains u "ML-KEM" || contains u "MLKEM" || contains u "KYBER" then "ML-KEM"
  else if contains u "SLH-DSA" || contains u "SPHINCS" then "SLH-DSA"
  else if contains u "DSA" then "DSA"
  else if contains u "DH" then "DH"
  else a

def isSHA1 (s : String) : Bool :=
  let u := toUpper cm s
  contains u "SHA1" || contains u "SHA-1"

def isMD5 (s : String) : Bool := contains (toUpper cm s) "MD5"

def riskOrder : String → Nat
  | "LOW" => 1
  | "MEDIUM" => 2
  | "HIGH" => 3
  | "CRITICAL" => 4
  | _ => 0

def escalate (cur next : String) : String :=
  if riskOrder next > riskOrder cur then next else cur

/-- The risk of the key, and the evidence. -/
def keyRisk (alg : String) (keySize : Int) : String × List String :=
  if alg = "RSA" ∧ keySize > 0 ∧ keySize < 2048 then
    ("CRITICAL", ["RSA key " ++ toString keySize ++ " bits < 2048"])
  else if alg = "RSA" ∧ keySize = 2048 then
    ("HIGH", ["RSA-2048 classified (Shor family), deprecating"])
  else if alg = "ECC" ∧ keySize > 0 ∧ keySize < 256 then
    ("HIGH", ["ECC key " ++ toString keySize ++ " bits < 256"])
  else if alg = "DSA" then ("HIGH", ["DSA deprecated"])
  else ("LOW", [])

/-- The quantum status and risk of a normalized algorithm, and the evidence. -/
def quantumVerdict (alg : String) : String × String × List String :=
  if alg ∈ ["RSA", "ECC", "EdDSA", "DH"] then
    ("quantum_vulnerable", "HIGH", [alg ++ " is broken by Shor's algorithm"])
  else if alg ∈ ["ML-KEM", "ML-DSA", "SLH-DSA"] then ("quantum_safe", "SAFE", [])
  else ("unknown", "MEDIUM", [])

def migrationPriority (quantumRisk classicalRisk expiryStatus deviceLifetime : String) : String :=
  let score :=
    (if quantumRisk = "HIGH" then 2 else if quantumRisk = "MEDIUM" then 1 else 0) +
    (if classicalRisk = "CRITICAL" then 2 else if classicalRisk = "HIGH" then 1 else 0) +
    (if expiryStatus ≠ "valid" then 1 else 0) +
    if deviceLifetime ∈ ["10+ years", "5-10 years", "10 years+"] then 1 else 0
  if score ≥ 4 then "P0" else if score ≥ 2 then "P1" else "P2"

/-- A day in nanoseconds. -/
def day : Int := 24 * 3600 * 1000000000

/-- `Time.Sub`, which stays at the longest duration. -/
def sub (t u : Time) : Int := max (-9223372036854775808) (min 9223372036854775807 (t - u))

/-- The risk of a certificate. The days are those of a float64 there, which can differ in the last
place of the quotient. -/
def assess (m : Metadata) (now : Time) (deviceLifetime : String) : RiskReport :=
  let alg := normalizeAlg cm m.publicKeyAlgorithm
  let key := keyRisk alg m.keySize
  let sha1 := isSHA1 cm m.signatureAlgorithm
  let md5 := isMD5 cm m.signatureAlgorithm
  let classicalRisk := if sha1 then escalate key.1 "HIGH" else key.1
  let classicalRisk := if md5 then escalate classicalRisk "CRITICAL" else classicalRisk
  let quantum := quantumVerdict alg
  let daysToExpiry := (sub m.notAfter now).tdiv day
  let expiryStatus :=
    if now > m.notAfter then "expired" else if daysToExpiry ≤ 30 then "expiring_soon" else "valid"
  { classicalRisk, quantumStatus := quantum.1, quantumRisk := quantum.2.1, expiryStatus
    daysToExpiry
    migrationPriority := migrationPriority quantum.2.1 classicalRisk expiryStatus deviceLifetime
    evidence := key.2 ++ (if sha1 then ["SHA-1 signature"] else []) ++
      (if md5 then ["MD5 signature"] else []) ++ quantum.2.2 }

variable {cm} {m : Metadata} {now : Time} {deviceLifetime : String}

/-- The status is one of the key alone. -/
theorem quantumStatus_assess : (assess cm m now deviceLifetime).quantumStatus =
    (quantumVerdict (normalizeAlg cm m.publicKeyAlgorithm)).1 := rfl

end RivicQ.Certeng.Assess
