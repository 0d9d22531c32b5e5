import RivicQ.Identity.Analyze

namespace RivicQ.Properties.Discretion

open RivicQ.Lib.GoStrings RivicQ.Lib.Bytes RivicQ.Certeng.Certificates RivicQ.Cryptoscan.Detect
open RivicQ.Cryptoart.Graphs RivicQ.Identity.Analyze
open RivicQ.Lib.Base64 (hexString)

/-- An object without the hash in its labels. -/
def redactedObject (o : Object) : Object :=
  { o with labels := o.labels.map fun l => if l.1 = "sha256" then (l.1, "") else l }

def redactedGraph (g : Graph) : Graph := { g with objects := g.objects.map redactedObject }

/-- A report without the hash and the size of the bytes, and without the time that it took. -/
def redacted (rep : Report) : Report :=
  { rep with sizeBytes := 0, sha256 := "", durationMS := 0, graph := redactedGraph rep.graph }

/-- The markers of the profile that occur in the strings of some data. -/
def profileMarkers (cm : CaseMap) (p : Profile) (data : Bytes) : Set String :=
  {m | m ∈ (newSurface cm (strings data)).all cm p.markers}

/-- The markers of the catalogue that occur in the strings of some data. -/
def algorithmMarkers (cm : CaseMap) (data : Bytes) : Set String :=
  {m | m ∈ (newSurface cm (strings data)).allToken cm catalogMarkers}

section Graphs

variable {g g' : Graph} {o o' : Object}

theorem redactedGraph_add (g : Graph) (o : Object) :
    redactedGraph (g.add o) = (redactedGraph g).add (redactedObject o) := by
  have hid : (redactedObject o).id = o.id := rfl
  have hindex : (redactedGraph g).index = g.index := rfl
  unfold Graph.add
  rw [hid, hindex]
  by_cases hblank : trimSpace o.id = ""
  · rw [if_pos hblank, if_pos hblank]
  · rw [if_neg hblank, if_neg hblank]
    cases g.index.lookup o.id with
    | none => simp [redactedGraph]
    | some i => simp [redactedGraph, List.map_set]

theorem redactedGraph_relate (g : Graph) (source target : String) (type : RelationType)
    (evidence : String) :
    redactedGraph (g.relate source target type evidence) =
      (redactedGraph g).relate source target type evidence := by
  have hindex : (redactedGraph g).index = g.index := rfl
  have hedges : (redactedGraph g).edges = g.edges := rfl
  simp only [Graph.relate, hindex, hedges]
  split_ifs <;> rfl

/-- Two graphs are the same but for the hash. -/
def Alike (g g' : Graph) : Prop := redactedGraph g = redactedGraph g'

theorem Alike.add (h : Alike g g') (ho : redactedObject o = redactedObject o') :
    Alike (g.add o) (g'.add o') := by
  unfold Alike
  rw [redactedGraph_add, redactedGraph_add, h, ho]

theorem Alike.relate (h : Alike g g') (source target : String) (type : RelationType)
    (evidence : String) :
    Alike (g.relate source target type evidence) (g'.relate source target type evidence) := by
  unfold Alike
  rw [redactedGraph_relate, redactedGraph_relate, h]

theorem Alike.foldl {A : Type} {step : Graph → A → Graph} (h : Alike g g') (items : List A)
    (hstep : ∀ {g g'} a, Alike g g' → Alike (step g a) (step g' a)) :
    Alike (items.foldl step g) (items.foldl step g') := by
  induction items generalizing g g' with
  | nil => exact h
  | cons a items ih => exact ih (hstep a h)

end Graphs

variable {cm : CaseMap} {rep : Report} {g g' : Graph}

theorem alike_identity (rep : Report) (id : IdentityRef) (h : Alike g g') :
    Alike (graphIdentity rep g id) (graphIdentity rep g' id) :=
  (h.add rfl).relate _ _ _ _

theorem alike_certificate (rep : Report) (c : CertificateFinding × Nat) (h : Alike g g') :
    Alike (graphCertificate rep g c) (graphCertificate rep g' c) := by
  unfold graphCertificate
  cases rep.identities with
  | nil => exact ((h.add rfl).add rfl).relate _ _ _ _
  | cons id ids => exact (((h.add rfl).add rfl).relate _ _ _ _).relate _ _ _ _

theorem alike_library (rep : Report) (l : LibraryFinding) (h : Alike g g') :
    Alike (graphLibrary rep g l) (graphLibrary rep g' l) :=
  (h.add rfl).relate _ _ _ _

/-- The graph has the hash in the labels of the asset only. -/
theorem alike_buildGraph (rep : Report) (size : Nat) (hash : String) :
    Alike (buildGraph cm { rep with sizeBytes := size, sha256 := hash }) (buildGraph cm rep) := by
  have hempty : Alike {} {} := rfl
  have hasset : redactedObject (graphAsset cm { rep with sizeBytes := size, sha256 := hash }) =
      redactedObject (graphAsset cm rep) := rfl
  have hidentities := (hempty.add hasset).foldl rep.identities (alike_identity rep)
  have hcertificates := hidentities.foldl rep.certificates.zipIdx (alike_certificate rep)
  exact hcertificates.foldl rep.libraries (alike_library rep)

theorem redacted_buildGraph (rep : Report) (size : Nat) (hash : String) (elapsed elapsed' : Int) :
    redacted { rep with sizeBytes := size, sha256 := hash, durationMS := elapsed
                        graph := buildGraph cm { rep with sizeBytes := size, sha256 := hash } } =
      redacted { rep with durationMS := elapsed', graph := buildGraph cm rep } := by
  have hgraph := @alike_buildGraph cm rep size hash
  unfold redacted
  rw [hgraph]

/-- What a report says of some bytes is a function of their certificates and of the markers that
occur in their strings, but for the hash and the size of the bytes and the time that it takes. -/
theorem reports_markers (x : Setup) (p : Profile) (opts : Options) (name : String)
    (elapsed elapsed' : Int) (data data' : Bytes)
    (hcerts : extractFromBytes x.decoders data name = extractFromBytes x.decoders data' name)
    (hprofile : profileMarkers x.cm p data = profileMarkers x.cm p data')
    (halgorithms : algorithmMarkers x.cm data = algorithmMarkers x.cm data') :
    redacted (analyzeBytes x p opts elapsed name data) =
      redacted (analyzeBytes x p opts elapsed' name data') := by
  have hdet : detect x.cm p (strings data) = detect x.cm p (strings data') :=
    detect_congr (fun m => Set.ext_iff.mp hprofile m) (fun m => Set.ext_iff.mp halgorithms m)
  have hfound : detections x p opts name data' = { detections x p opts name data with
      sizeBytes := data'.length, sha256 := hexString (x.decoders.sha256 data') } := by
    simp only [detections, hcerts, hdet]
  have hinventory : inventory (detections x p opts name data') =
      { inventory (detections x p opts name data) with
        sizeBytes := data'.length, sha256 := hexString (x.decoders.sha256 data') } := by
    rw [hfound]
    rfl
  unfold analyzeBytes
  rw [hinventory]
  exact (redacted_buildGraph _ _ _ elapsed' elapsed).symm

/-- A subscriber. -/
def subscriber : Bytes := ascii "IMSI=310150123456789"

def other : Bytes := ascii "IMSI=001010"

/-- Decoders that find no certificate in either. -/
def decoders : Decoders where
  pemDecode _ := none
  parseCertificate _ := none
  sha256 data :=
    if data = subscriber then
      [0x1e, 0x98, 0x20, 0xea, 0x7c, 0xc8, 0xa3, 0x25, 0xab, 0x05, 0xba, 0x03, 0x70, 0xa3, 0x00,
        0x07, 0x84, 0x82, 0x76, 0xbb, 0xb2, 0x39, 0x11, 0xe0, 0x21, 0xee, 0x75, 0xa7, 0x6a, 0xac,
        0x16, 0xc8]
    else
      [0x0f, 0x27, 0x6a, 0x95, 0x18, 0x84, 0x76, 0x7c, 0x2f, 0xe0, 0x51, 0xdd, 0x4d, 0xc6, 0x4a,
        0x93, 0xa9, 0x48, 0x74, 0xda, 0xc9, 0xa2, 0x86, 0x52, 0xd0, 0xc3, 0x2b, 0xe3, 0xa3, 0x38,
        0x5e, 0x7c]

def identityProfile : Profile where
  id := "identity"
  rules := [{
    id := "subscriber_identity", label := "Subscriber identity", kind := "device_identity"
    markers := ["IMSI", "ICCID", "IMPI", "IMPU"]
    note := "Identity *references* only; values are never collected or emitted." }]

def setup : Setup where
  cm := asciiCase
  decoders := decoders
  id := "1"
  now := 0

theorem reports_markers_subscriber :
    redacted (analyzeBytes setup identityProfile {} 3 "sim.cfg" subscriber) =
      redacted (analyzeBytes setup identityProfile {} 5 "sim.cfg" other) := by
  have hall : (newSurface setup.cm (strings subscriber)).all setup.cm identityProfile.markers =
      (newSurface setup.cm (strings other)).all setup.cm identityProfile.markers := by
    decide
  have htoken : (newSurface setup.cm (strings subscriber)).allToken setup.cm catalogMarkers =
      (newSurface setup.cm (strings other)).allToken setup.cm catalogMarkers := by
    decide
  refine reports_markers setup identityProfile {} "sim.cfg" 3 5 subscriber other
    (by decide) ?_ ?_
  · unfold profileMarkers
    rw [hall]
  · unfold algorithmMarkers
    rw [htoken]

end RivicQ.Properties.Discretion
