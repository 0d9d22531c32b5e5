import Mathlib.Data.List.Find
import RivicQ.Lib.Bytes
import RivicQ.Quantum.QiskitProfile

namespace RivicQ.Cryptoscan.Detect

open RivicQ.Lib.Bytes RivicQ.Lib.GoStrings RivicQ.Lib.Casing RivicQ.Quantum.QiskitProfile

section Strings

variable (minLen max : Nat)

def asciiText (run : Bytes) : String := String.ofList (run.map fun b => Char.ofNat b.toNat)

/-- End the current run, which counts if it is long enough. -/
def flush (out : List String) (cur : Bytes) : List String :=
  if cur.length ≥ minLen then out ++ [asciiText cur] else out

def extractFrom (out : List String) (cur : Bytes) : Bytes → List String
  | [] => flush minLen out cur
  | b :: rest =>
    if 0x20 ≤ b ∧ b ≤ 0x7e then
      if out.length ≥ max then flush minLen out (cur ++ [b]) else extractFrom out (cur ++ [b]) rest
    else
      let out := flush minLen out cur
      if out.length ≥ max then flush minLen out [] else extractFrom out [] rest

/-- The printable ASCII runs of at least so many bytes, up to so many of them. -/
def extractStrings (data : Bytes) : List String :=
  extractFrom (if minLen < 1 then 4 else minLen) max [] [] data

end Strings

section Surface

variable (cm : CaseMap)

/-- A haystack of strings, lowercased. -/
structure Surface where
  lower : String

def newSurface (strs : List String) : Surface := ⟨toLower cm ("\n".intercalate strs)⟩

/-- Every marker that occurs, whatever its case. -/
def Surface.all (s : Surface) (markers : List String) : List String :=
  markers.filter fun m => m ≠ "" && contains s.lower (toLower cm m)

def isAlnum (c : Char) : Bool :=
  ('a' ≤ c && c ≤ 'z') || ('A' ≤ c && c ≤ 'Z') || ('0' ≤ c && c ≤ '9')

/-- A text occurs with no letter and no digit right before it. -/
def tokenFrom (m : List Char) (boundary : Bool) : List Char → Bool
  | [] => false
  | c :: s => m.isPrefixOf (c :: s) && boundary || tokenFrom m (!isAlnum c) s

def Surface.tokenContains (s : Surface) (m : String) : Bool :=
  tokenFrom m.toList true s.lower.toList

/-- Every marker that occurs as a token. -/
def Surface.allToken (s : Surface) (markers : List String) : List String :=
  markers.filter fun m => m ≠ "" && s.tokenContains (toLower cm m)

end Surface

section Findings

structure LibraryRule where
  library : String
  markers : List String
  algorithms : List String

structure APIRule where
  api : String
  markers : List String
  note : String

structure ProtocolRule where
  protocol : String
  markers : List String
  layer : String

structure Rule where
  id : String
  label : String
  kind : String
  markers : List String
  note : String

/-- The detection rules of a domain profile. -/
structure Profile where
  id : String := ""
  libraries : List LibraryRule := []
  cryptoAPIs : List APIRule := []
  protocols : List ProtocolRule := []
  rules : List Rule := []

/-- A library finding; its confidence is in percent. -/
structure LibraryFinding where
  library : String
  markers : List String
  algorithms : List String
  confidence : Nat
  location : String

structure AlgorithmFinding where
  algorithm : String
  category : String
  markers : List String := []
  referenced : Bool
  attackClass : String
  quantumSafe : Bool
  quantumRisk : String
  pqcStatus : String
  replacement : String
  migration : String
  confidence : Nat
  evidence : String

structure APIFinding where
  api : String
  markers : List String
  note : String

structure ProtocolFinding where
  protocol : String
  layer : String
  markers : List String

structure RuleFinding where
  id : String
  label : String
  kind : String
  markers : List String
  note : String

structure Detection where
  libraries : List LibraryFinding
  algorithms : List AlgorithmFinding
  cryptoAPIs : List APIFinding
  protocols : List ProtocolFinding
  rules : List RuleFinding

structure AlgorithmRule where
  algorithm : String
  category : String
  markers : List String := []
  replacement : String

end Findings

def algorithmCatalog : List AlgorithmRule := [
  { algorithm := "RSA", category := "asymmetric"
    replacement := "ML-KEM (KEM) / hybrid; ML-DSA (signatures)"
    markers := ["RSA", "rsa_", "RSA_", "rsaEncryption"] },
  { algorithm := "ECDSA", category := "asymmetric"
    replacement := "ML-DSA / SLH-DSA (hybrid during transition)"
    markers := ["ECDSA", "ecdsa_", "ECDSA_sign", "ecdsa_sign"] },
  { algorithm := "ECDH", category := "asymmetric", replacement := "ML-KEM / hybrid X25519+ML-KEM"
    markers := ["ECDH", "ecdh_", "ECDHE"] },
  { algorithm := "Ed25519", category := "asymmetric", replacement := "ML-DSA"
    markers := ["Ed25519", "ed25519", "ED25519"] },
  { algorithm := "X25519", category := "asymmetric", replacement := "X25519+ML-KEM hybrid"
    markers := ["X25519", "x25519", "curve25519"] },
  { algorithm := "DH", category := "asymmetric", replacement := "ML-KEM"
    markers := ["Diffie-Hellman", "diffie_hellman", "dh_generate", "DH_generate", "dh_compute",
      "DH_compute", "dhkey"] },
  { algorithm := "DSA", category := "asymmetric", replacement := "ML-DSA"
    markers := ["OpenSSL DSA", "DSA signature", "dsa_key", "DSA key", "(DSA)", "DSA-"] },
  { algorithm := "ML-KEM", category := "kem", replacement := "-"
    markers := ["ML-KEM", "MLKEM", "Kyber", "kyber", "CRYSTALS-Kyber"] },
  { algorithm := "ML-DSA", category := "asymmetric", replacement := "-"
    markers := ["ML-DSA", "MLDSA", "Dilithium", "dilithium"] },
  { algorithm := "SLH-DSA", category := "asymmetric", replacement := "-"
    markers := ["SLH-DSA", "SPHINCS", "sphincs", "SPHINCS+"] },
  { algorithm := "AES", category := "symmetric", replacement := "AES-256"
    markers := ["AES", "aes_", "AES_", "aes_gcm", "AES-GCM"] },
  { algorithm := "3DES", category := "symmetric", replacement := "AES-256"
    markers := ["3DES", "Triple-DES", "DES3", "des3"] },
  { algorithm := "DES", category := "symmetric", replacement := "AES-256"
    markers := ["DES_", "_DES", "des_cbc"] },
  { algorithm := "RC4", category := "symmetric", replacement := "AES-256-GCM / ChaCha20"
    markers := ["RC4", "rc4", "arc4"] },
  { algorithm := "ChaCha20", category := "symmetric", replacement := "-"
    markers := ["ChaCha20", "chacha20", "CHACHA20"] },
  { algorithm := "SHA-1", category := "hash", replacement := "SHA-256/384"
    markers := ["SHA-1", "SHA1", "sha1", "SHA1_"] },
  { algorithm := "SHA-256", category := "hash", replacement := "-"
    markers := ["SHA-256", "SHA256", "sha256"] },
  { algorithm := "SHA-512", category := "hash", replacement := "-"
    markers := ["SHA-512", "SHA512", "sha512"] },
  { algorithm := "SHA3", category := "hash", replacement := "-"
    markers := ["SHA3", "sha3", "Keccak"] },
  { algorithm := "MD5", category := "hash", replacement := "SHA-256", markers := ["MD5", "md5_"] },
  { algorithm := "HMAC", category := "mac", replacement := "-"
    markers := ["HMAC", "hmac_", "CMAC", "cmac"] },
  { algorithm := "Poly1305", category := "mac", replacement := "-"
    markers := ["Poly1305", "poly1305"] }]

section Detection

variable (cm : CaseMap)

/-- The confidence of so many hits, in percent. -/
def confidenceFor (markerHits : Nat) : Nat :=
  if markerHits ≥ 3 then 95 else if markerHits = 2 then 85 else if markerHits = 1 then 70 else 50

def pqcStatus (cl : AlgorithmScore) : String :=
  if cl.attackClass = .pqc then "quantum_safe"
  else if cl.qiskitFamily = "broken_classical" then "broken_classical"
  else
    match cl.attackClass with
    | .shor => "migration_required"
    | .grover => if cl.quantumSafe then "quantum_resistant" else "migration_recommended"
    | _ => "unclassified"

def quantumRisk (cl : AlgorithmScore) : String :=
  match cl.attackClass with
  | .shor => "HIGH"
  | .grover => if cl.quantumSafe then "LOW" else "MEDIUM"
  | .pqc => "SAFE"
  | .none => "UNKNOWN"

def riskFromPQC (status : String) : String :=
  match status with
  | "migration_required" => "HIGH"
  | "migration_recommended" | "broken_classical" => "MEDIUM"
  | "quantum_safe" | "quantum_resistant" => "LOW"
  | _ => "INFO"

/-- The rules of which some marker is found, as findings in the order of their names. -/
def detectBy {R F : Type} (find : List String → List String) (markers : R → List String)
    (finding : R → List String → F) (name : F → String) (rules : List R) : List F :=
  (rules.filterMap fun rule =>
    let ms := find (markers rule)
    if ms = [] then none else some (finding rule ms)).mergeSort fun a b => name a ≤ name b

def detectLibraries (surface : Surface) (p : Profile) : List LibraryFinding :=
  detectBy (surface.all cm) LibraryRule.markers
    (fun rule markers => { library := rule.library, markers, algorithms := rule.algorithms
                           confidence := confidenceFor markers.length
                           location := "string-evidence" })
    LibraryFinding.library p.libraries

def detectAlgorithms (surface : Surface) : List AlgorithmFinding :=
  detectBy (surface.allToken cm) AlgorithmRule.markers
    (fun rule markers =>
      let cl := classify cm rule.algorithm 0
      { algorithm := rule.algorithm, category := rule.category, markers, referenced := true
        attackClass := cl.attackClass.text, quantumSafe := cl.quantumSafe
        pqcStatus := pqcStatus cl, replacement := rule.replacement, migration := cl.migration
        confidence := confidenceFor markers.length
        evidence := "string-evidence: " ++ ", ".intercalate markers
        quantumRisk := quantumRisk cl })
    AlgorithmFinding.algorithm algorithmCatalog

def detectAPIs (surface : Surface) (p : Profile) : List APIFinding :=
  detectBy (surface.all cm) APIRule.markers
    (fun rule markers => { api := rule.api, markers, note := rule.note })
    APIFinding.api p.cryptoAPIs

def detectProtocols (surface : Surface) (p : Profile) : List ProtocolFinding :=
  detectBy (surface.all cm) ProtocolRule.markers
    (fun rule markers => { protocol := rule.protocol, layer := rule.layer, markers })
    ProtocolFinding.protocol p.protocols

def detectRules (surface : Surface) (p : Profile) : List RuleFinding :=
  detectBy (surface.all cm) Rule.markers
    (fun rule markers => { id := rule.id, label := rule.label, kind := rule.kind, markers
                           note := rule.note })
    RuleFinding.id p.rules

/-- Run the full detection set against a corpus of strings. -/
def detect (p : Profile) (strs : List String) : Detection :=
  let surface := newSurface cm strs
  { libraries := detectLibraries cm surface p
    algorithms := detectAlgorithms cm surface
    cryptoAPIs := detectAPIs cm surface p
    protocols := detectProtocols cm surface p
    rules := detectRules cm surface p }

section Markers

def Profile.markers (p : Profile) : List String :=
  p.libraries.flatMap LibraryRule.markers ++ p.cryptoAPIs.flatMap APIRule.markers ++
    p.protocols.flatMap ProtocolRule.markers ++ p.rules.flatMap Rule.markers

def catalogMarkers : List String := algorithmCatalog.flatMap AlgorithmRule.markers

variable {cm} {s s' : Surface} {p : Profile}

theorem all_congr {markers markers' : List String}
    (h : ∀ m, m ∈ s.all cm markers ↔ m ∈ s'.all cm markers) (hsub : markers' ⊆ markers) :
    s.all cm markers' = s'.all cm markers' := by
  refine List.filter_congr fun m hm => ?_
  have hiff := h m
  rw [Surface.all, Surface.all, List.mem_filter, List.mem_filter,
    and_iff_right (hsub hm), and_iff_right (hsub hm)] at hiff
  exact Bool.eq_iff_iff.mpr hiff

theorem allToken_congr {markers markers' : List String}
    (h : ∀ m, m ∈ s.allToken cm markers ↔ m ∈ s'.allToken cm markers) (hsub : markers' ⊆ markers) :
    s.allToken cm markers' = s'.allToken cm markers' := by
  refine List.filter_congr fun m hm => ?_
  have hiff := h m
  rw [Surface.allToken, Surface.allToken, List.mem_filter, List.mem_filter,
    and_iff_right (hsub hm), and_iff_right (hsub hm)] at hiff
  exact Bool.eq_iff_iff.mpr hiff

theorem detectBy_congr {R F : Type} {find find' : List String → List String}
    {markers : R → List String} {finding : R → List String → F} {name : F → String}
    {rules : List R} (h : ∀ rule ∈ rules, find (markers rule) = find' (markers rule)) :
    detectBy find markers finding name rules = detectBy find' markers finding name rules := by
  have hfound : (rules.filterMap fun rule =>
      if find (markers rule) = [] then none else some (finding rule (find (markers rule)))) =
      rules.filterMap fun rule =>
        if find' (markers rule) = [] then none else some (finding rule (find' (markers rule))) :=
    List.filterMap_congr fun rule hrule => by rw [h rule hrule]
  exact congrArg (fun found => found.mergeSort fun a b => name a ≤ name b) hfound

/-- What is detected is a function of the markers of the profile and of the catalogue that occur. -/
theorem detect_congr {strs strs' : List String}
    (hprofile : ∀ m, m ∈ (newSurface cm strs).all cm p.markers ↔
      m ∈ (newSurface cm strs').all cm p.markers)
    (hcatalog : ∀ m, m ∈ (newSurface cm strs).allToken cm catalogMarkers ↔
      m ∈ (newSurface cm strs').allToken cm catalogMarkers) :
    detect cm p strs = detect cm p strs' := by
  have hlibraries : detectLibraries cm (newSurface cm strs) p =
      detectLibraries cm (newSurface cm strs') p :=
    detectBy_congr fun rule hrule => all_congr hprofile fun m hm => by
      simp only [Profile.markers, List.mem_append, List.mem_flatMap]
      exact .inl (.inl (.inl ⟨rule, hrule, hm⟩))
  have hapis : detectAPIs cm (newSurface cm strs) p = detectAPIs cm (newSurface cm strs') p :=
    detectBy_congr fun rule hrule => all_congr hprofile fun m hm => by
      simp only [Profile.markers, List.mem_append, List.mem_flatMap]
      exact .inl (.inl (.inr ⟨rule, hrule, hm⟩))
  have hprotocols : detectProtocols cm (newSurface cm strs) p =
      detectProtocols cm (newSurface cm strs') p :=
    detectBy_congr fun rule hrule => all_congr hprofile fun m hm => by
      simp only [Profile.markers, List.mem_append, List.mem_flatMap]
      exact .inl (.inr ⟨rule, hrule, hm⟩)
  have hrules : detectRules cm (newSurface cm strs) p = detectRules cm (newSurface cm strs') p :=
    detectBy_congr fun rule hrule => all_congr hprofile fun m hm => by
      simp only [Profile.markers, List.mem_append, List.mem_flatMap]
      exact .inr ⟨rule, hrule, hm⟩
  have halgorithms : detectAlgorithms cm (newSurface cm strs) =
      detectAlgorithms cm (newSurface cm strs') :=
    detectBy_congr fun rule hrule => allToken_congr hcatalog fun m hm =>
      List.mem_flatMap.mpr ⟨rule, hrule, hm⟩
  simp only [detect, hlibraries, halgorithms, hapis, hprotocols, hrules]

end Markers

/-- The finding of an algorithm by its name, without string evidence. -/
def algorithm (name evidence : String) : AlgorithmFinding :=
  let rule := (algorithmCatalog.find? fun r => equalFold cm r.algorithm name).getD
    { algorithm := name, category := "asymmetric", replacement := "-" }
  let cl := classify cm rule.algorithm 0
  { algorithm := rule.algorithm, category := rule.category, referenced := true
    attackClass := cl.attackClass.text, quantumSafe := cl.quantumSafe, pqcStatus := pqcStatus cl
    replacement := rule.replacement, migration := cl.migration, confidence := 90, evidence
    quantumRisk := quantumRisk cl }

/-- The name that the catalogue has for an algorithm, or else its own. -/
def catalogName (name : String) : String :=
  ((algorithmCatalog.find? fun r => equalFold cm r.algorithm name).map
    AlgorithmRule.algorithm).getD name

/-- The first case of which some text occurs. -/
def firstCase (s : String) (cases : List (List String × String)) : List String :=
  ((cases.find? fun c => c.1.any (contains s)).map (·.2)).toList

def keyCases : List (List String × String) :=
  [(["ML-DSA", "MLDSA"], "ML-DSA"), (["ML-KEM", "KYBER"], "ML-KEM"),
    (["SLH-DSA", "SPHINCS"], "SLH-DSA"), (["ECDSA", "ECC"], "ECDSA"),
    (["ED25519", "EDDSA"], "Ed25519"), (["RSA"], "RSA"), (["DSA"], "DSA"), (["DH"], "DH")]

def hashCases : List (List String × String) :=
  [(["SHA-1", "SHA1"], "SHA-1"), (["SHA-256", "SHA256"], "SHA-256"),
    (["SHA-384", "SHA384"], "SHA-384"), (["SHA-512", "SHA512"], "SHA-512"), (["MD5"], "MD5")]

def certificateNames (s : String) : List String :=
  let s := toUpper cm s
  firstCase s keyCases ++ firstCase s hashCases

/-- The algorithm names of a certificate, from those of its key and its signature. -/
def algorithmsFromCert (pub sig : String) : List String :=
  (certificateNames cm pub ++ certificateNames cm sig).dedup.mergeSort fun a b => a ≤ b

theorem algorithm_status (name evidence : String) :
    (algorithm cm name evidence).algorithm = catalogName cm name ∧
      (algorithm cm name evidence).pqcStatus = pqcStatus (classify cm (catalogName cm name) 0) := by
  unfold algorithm catalogName
  generalize algorithmCatalog.find? (fun r => equalFold cm r.algorithm name) = found
  cases found with
  | none => simp only [Option.getD_none, Option.map_none, and_self]
  | some rule => simp only [Option.getD_some, Option.map_some, and_self]

theorem firstCase_nil (s : String) : firstCase s [] = [] := rfl

theorem firstCase_cons (s : String) (marks : List String) (name : String)
    (cases : List (List String × String)) : firstCase s ((marks, name) :: cases) =
      if marks.any (contains s) then [name] else firstCase s cases := by
  unfold firstCase
  rw [List.find?_cons]
  cases marks.any (contains s) <;> rfl

theorem catalog_ascii : ∀ r ∈ algorithmCatalog, Ascii r.algorithm := by decide

theorem catalogName_ascii (u : UnicodeCase) {name : String} (hname : Ascii name) :
    catalogName u.toCaseMap name = catalogName asciiCase name := by
  have hfind : algorithmCatalog.find? (fun r => equalFold u.toCaseMap r.algorithm name) =
      algorithmCatalog.find? (fun r => equalFold asciiCase r.algorithm name) :=
    List.find?_congr fun r hr => equalFold_ascii u (catalog_ascii r hr) hname
  rw [catalogName, catalogName, hfind]

/-- What is detected is a finding of a rule of which some marker is found. -/
theorem mem_detectBy {R F : Type} {find : List String → List String} {markers : R → List String}
    {finding : R → List String → F} {name : F → String} {rules : List R} {f : F} :
    f ∈ detectBy find markers finding name rules ↔
      ∃ rule ∈ rules, find (markers rule) ≠ [] ∧ finding rule (find (markers rule)) = f := by
  simp only [detectBy, List.mem_mergeSort, List.mem_filterMap]
  constructor
  · rintro ⟨rule, hrule, h⟩
    split_ifs at h with hmarkers
    exact ⟨rule, hrule, hmarkers, Option.some.inj h⟩
  · rintro ⟨rule, hrule, hmarkers, rfl⟩
    exact ⟨rule, hrule, if_neg hmarkers⟩

/-- An algorithm is detected if a token of one of its rules is. -/
theorem mem_detectAlgorithms {surface : Surface} {n : String} :
    n ∈ (detectAlgorithms cm surface).map AlgorithmFinding.algorithm ↔
      ∃ rule ∈ algorithmCatalog, rule.algorithm = n ∧ surface.allToken cm rule.markers ≠ [] := by
  simp only [detectAlgorithms, List.mem_map, mem_detectBy]
  constructor
  · rintro ⟨_, ⟨rule, hrule, hmarkers, rfl⟩, rfl⟩
    exact ⟨rule, hrule, rfl, hmarkers⟩
  · rintro ⟨rule, hrule, rfl, hmarkers⟩
    exact ⟨_, ⟨rule, hrule, hmarkers, rfl⟩, rfl⟩

end Detection

end RivicQ.Cryptoscan.Detect
