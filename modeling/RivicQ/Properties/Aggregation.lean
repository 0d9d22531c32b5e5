import Mathlib
import RivicQ.Firmware.Analysis
import RivicQ.Lib.Firsts
import RivicQ.Lib.Groups

namespace RivicQ.Properties.Aggregation

open RivicQ.Lib.Bytes RivicQ.Lib.Groups RivicQ.Lib.Sortings RivicQ.Lib.Summaries
open RivicQ.Cryptoscan.Detect RivicQ.Firmware.Archives RivicQ.Firmware.Formats
open RivicQ.Firmware.Reports RivicQ.Firmware.Analysis

variable (x : Setup)

/-- What all images in an artifact have by some reading of reports, by the number of levels that
are left. -/
def occurrences {F : Type} (get : Report → List F) : Nat → String → Bytes → List F
  | 0, _, _ => []
  | left + 1, name, data =>
    match members x (detectFormat x.cm name data) name data with
    | some ms => ms.entries.flatMap fun e => occurrences get left e.name e.data
    | none => get (analyzeImage x (newReport x name data) name data)

/-- The algorithms that an image references, and those of its certificates. -/
def referencedAlgorithms (rep : Report) : List AlgorithmFinding :=
  rep.algorithms ++ rep.certificates.flatMap (certificateAlgorithms x)

section Listings

variable {F : Type} (key order : F → String) (occ out : List F)

/-- The findings that occur are listed, once each and in order. -/
structure Listed : Prop where
  names : ∀ k, k ∈ out.map key ↔ k ∈ occ.map key
  once : (out.map key).Nodup
  sorted : out.Pairwise fun f g => order f ≤ order g

/-- The markers are those of all occurrences. -/
def United (markers : F → List String) : Prop :=
  ∀ f ∈ out, ∀ s, s ∈ markers f ↔ ∃ g ∈ occ, key g = key f ∧ s ∈ markers g

/-- The confidence is the greatest of all occurrences. -/
def Greatest (confidence : F → Nat) : Prop :=
  ∀ f ∈ out, IsGreatest {n | ∃ g ∈ occ, key g = key f ∧ confidence g = n} (confidence f)

end Listings

/-- A report has what occurs in the images of an artifact. -/
structure Aggregates (name : String) (data : Bytes) (rep : Report) : Prop where
  libraries : Listed LibraryFinding.library LibraryFinding.library
    (occurrences x Report.libraries (x.limits.maxArchiveDepth + 1) name data) rep.libraries
  libraryMarkers : United LibraryFinding.library
    (occurrences x Report.libraries (x.limits.maxArchiveDepth + 1) name data) rep.libraries
    LibraryFinding.markers
  libraryConfidence : Greatest LibraryFinding.library
    (occurrences x Report.libraries (x.limits.maxArchiveDepth + 1) name data) rep.libraries
    LibraryFinding.confidence
  algorithms : Listed AlgorithmFinding.algorithm AlgorithmFinding.algorithm
    (occurrences x (referencedAlgorithms x) (x.limits.maxArchiveDepth + 1) name data) rep.algorithms
  algorithmMarkers : United AlgorithmFinding.algorithm
    (occurrences x (referencedAlgorithms x) (x.limits.maxArchiveDepth + 1) name data) rep.algorithms
    AlgorithmFinding.markers
  algorithmConfidence : Greatest AlgorithmFinding.algorithm
    (occurrences x (referencedAlgorithms x) (x.limits.maxArchiveDepth + 1) name data) rep.algorithms
    AlgorithmFinding.confidence
  referenced : ∀ a ∈ rep.algorithms, a.referenced = true ↔
    ∃ b ∈ occurrences x (referencedAlgorithms x) (x.limits.maxArchiveDepth + 1) name data,
      b.algorithm = a.algorithm ∧ b.referenced = true
  cryptoAPIs : Listed APIFinding.api APIFinding.api
    (occurrences x Report.cryptoAPIs (x.limits.maxArchiveDepth + 1) name data) rep.cryptoAPIs
  apiMarkers : United APIFinding.api
    (occurrences x Report.cryptoAPIs (x.limits.maxArchiveDepth + 1) name data) rep.cryptoAPIs
    APIFinding.markers
  protocols : Listed ProtocolFinding.protocol ProtocolFinding.protocol
    (occurrences x Report.protocols (x.limits.maxArchiveDepth + 1) name data) rep.protocols
  protocolMarkers : United ProtocolFinding.protocol
    (occurrences x Report.protocols (x.limits.maxArchiveDepth + 1) name data) rep.protocols
    ProtocolFinding.markers
  rules : Listed RuleFinding.id RuleFinding.id
    (occurrences x Report.rules (x.limits.maxArchiveDepth + 1) name data) rep.rules
  ruleMarkers : United RuleFinding.id
    (occurrences x Report.rules (x.limits.maxArchiveDepth + 1) name data) rep.rules
    RuleFinding.markers
  certificates : Listed fingerprint (fun c => c.metadata.subject)
    (occurrences x Report.certificates (x.limits.maxArchiveDepth + 1) name data) rep.certificates

/-- Finishing a report once more changes none of its findings, whatever order the certificates of
one subject come in. -/
structure Settled (rep : Report) : Prop where
  libraries : (finalize x rep).libraries = rep.libraries
  algorithms : (finalize x rep).algorithms = rep.algorithms
  cryptoAPIs : (finalize x rep).cryptoAPIs = rep.cryptoAPIs
  protocols : (finalize x rep).protocols = rep.protocols
  rules : (finalize x rep).rules = rep.rules
  certificates : (finalize x rep).certificates = rep.certificates
  anyOrder : ∀ out, Sorting (fun c : CertificateFinding => c.metadata.subject)
    (group fingerprint (fun _ c => c) rep.certificates).values out → out.Perm rep.certificates

variable {x} {left : Nat} {name : String} {data : Bytes} {rep : Report}

section Lists

variable {F A : Type} [SemilatticeSup A] {key order : F → String} {merge : F → F → F} {obs : F → A}
  {findings occ out : List F}

theorem alike_dedupeBy (hkey : ∀ u v, key u = key v → key (merge u v) = key u)
    (hobs : ∀ u v, obs (merge u v) = obs u ⊔ obs v) (findings : List F) :
    Alike key obs (dedupeBy key merge order findings) findings :=
  (alike_perm (List.mergeSort_perm _ _)).trans (alike_group hkey hobs findings)

theorem listed_dedupeBy (hkey : ∀ u v, key u = key v → key (merge u v) = key u)
    (hnames : ∀ k, k ∈ findings.map key ↔ k ∈ occ.map key) :
    Listed key order occ (dedupeBy key merge order findings) where
  names k := ((List.mergeSort_perm _ _).map key).mem_iff.trans
    ((mem_map_key_values hkey).trans (hnames k))
  once := ((List.mergeSort_perm _ _).map key).nodup_iff.mpr (nodup_map_key_values hkey)
  sorted := (sorting_mergeSort order _).sorted

/-- One for each key stays as it is, and in order. -/
theorem dedupeBy_absorbed {later : List F} (hnodup : (findings.map key).Nodup)
    (hsorted : findings.Pairwise fun f g => order f ≤ order g)
    (h : ∀ e ∈ later, key e ∈ findings.map key ∧ ∀ f ∈ findings, key f = key e → merge f e = f) :
    dedupeBy key merge order (findings ++ later) = findings := by
  rw [dedupeBy, values_absorbed hnodup h]
  exact List.mergeSort_of_pairwise (hsorted.imp decide_eq_true)

theorem dedupeBy_dedupeBy (hkey : ∀ u v, key u = key v → key (merge u v) = key u)
    (findings : List F) : dedupeBy key merge order (dedupeBy key merge order findings) =
      dedupeBy key merge order findings := by
  have hlisted := @listed_dedupeBy _ key order merge findings findings hkey fun _ => Iff.rfl
  have habsorbed := @dedupeBy_absorbed F key order merge _ [] hlisted.once hlisted.sorted nofun
  rwa [List.append_nil] at habsorbed

end Lists

section Merging

def mergeLibraries (prev l : LibraryFinding) : LibraryFinding :=
  { prev with markers := union prev.markers l.markers
              confidence := max prev.confidence l.confidence }

def mergeAlgorithms (prev a : AlgorithmFinding) : AlgorithmFinding :=
  { prev with markers := union prev.markers a.markers
              referenced := prev.referenced || a.referenced
              confidence := max prev.confidence a.confidence }

def mergeAPIs (prev a : APIFinding) : APIFinding :=
  { prev with markers := union prev.markers a.markers }

def mergeProtocols (prev p : ProtocolFinding) : ProtocolFinding :=
  { prev with markers := union prev.markers p.markers }

def mergeRules (prev r : RuleFinding) : RuleFinding :=
  { prev with markers := union prev.markers r.markers }

variable {F A : Type} [SemilatticeSup A] {key order : F → String} {merge : F → F → F} {obs : F → A}
  {get : Report → List F}

/-- What is read of a result. -/
def gotten (get : Report → List F) : Except String Report → List F
  | .error _ => []
  | .ok rep => get rep

/-- What a member's result adds to the report of its archive. -/
theorem get_foldl (hwarnings : ∀ rep ws, get { rep with warnings := ws } = get rep)
    (hmerge : ∀ parent child, get (mergeReport parent child) = get parent ++ get child)
    (mark : String → String) (analyze : ArchiveEntry → Except String Report)
    (entries : List ArchiveEntry) (rep : Report) :
    get (entries.foldl (mergeMember mark analyze) rep) =
      get rep ++ entries.flatMap fun e => gotten get (analyze e) := by
  induction entries generalizing rep with
  | nil => exact (List.append_nil _).symm
  | cons e entries ih =>
    rw [List.foldl_cons, ih, List.flatMap_cons, ← List.append_assoc, mergeMember]
    cases analyze e with
    | error err => rw [hwarnings, gotten, List.append_nil]
    | ok child => rw [hmerge, gotten]

variable (x get key order merge) in
/-- A kind of findings that each level of the analysis only merges. -/
structure Kind : Prop where
  key_merge : ∀ u v, key u = key v → key (merge u v) = key u
  final : ∀ rep, get (finalize x rep) = dedupeBy key merge order (get rep)
  fresh : ∀ name data ws, get { newReport x name data with warnings := ws } = []
  warnings : ∀ rep ws, get { rep with warnings := ws } = get rep
  merged : ∀ parent child, get (mergeReport parent child) = get parent ++ get child

/-- The analysis has what occurs in the images. -/
theorem Kind.alike (hk : Kind x key order merge get)
    (hobs : ∀ u v, obs (merge u v) = obs u ⊔ obs v) (left : Nat) (name : String) (data : Bytes) :
    Alike key obs (gotten get (analyzeDepth x left name data))
      (occurrences x get left name data) := by
  induction left generalizing name data with
  | zero => exact alike_refl []
  | succ left ih =>
    rw [occurrences]
    cases hmembers : members x (detectFormat x.cm name data) name data with
    | some ms =>
      rw [analyzeDepth_members hmembers, gotten, hk.final, get_foldl hk.warnings hk.merged,
        hk.fresh, List.nil_append]
      exact (alike_dedupeBy hk.key_merge hobs _).trans (alike_flatMap fun e _ => ih e.name e.data)
    | none =>
      rw [analyzeDepth_image hmembers, gotten, hk.final]
      exact alike_dedupeBy hk.key_merge hobs _

theorem libraryKind : Kind x LibraryFinding.library LibraryFinding.library mergeLibraries
    Report.libraries :=
  ⟨fun _ _ _ => rfl, fun _ => rfl, fun _ _ _ => rfl, fun _ _ => rfl, fun _ _ => rfl⟩

theorem apiKind : Kind x APIFinding.api APIFinding.api mergeAPIs Report.cryptoAPIs :=
  ⟨fun _ _ _ => rfl, fun _ => rfl, fun _ _ _ => rfl, fun _ _ => rfl, fun _ _ => rfl⟩

theorem protocolKind : Kind x ProtocolFinding.protocol ProtocolFinding.protocol mergeProtocols
    Report.protocols :=
  ⟨fun _ _ _ => rfl, fun _ => rfl, fun _ _ _ => rfl, fun _ _ => rfl, fun _ _ => rfl⟩

theorem ruleKind : Kind x RuleFinding.id RuleFinding.id mergeRules Report.rules :=
  ⟨fun _ _ _ => rfl, fun _ => rfl, fun _ _ _ => rfl, fun _ _ => rfl, fun _ _ => rfl⟩

theorem certificateKind : Kind x fingerprint (fun c => c.metadata.subject) (fun _ c => c)
    Report.certificates :=
  ⟨fun _ _ h => h.symm, fun _ => rfl, fun _ _ _ => rfl, fun _ _ => rfl, fun _ _ => rfl⟩

/-- No level makes up a certificate. -/
theorem certificates_subset (left : Nat) (name : String) (data : Bytes) :
    gotten Report.certificates (analyzeDepth x left name data) ⊆
      occurrences x Report.certificates left name data := by
  induction left generalizing name data with
  | zero => exact List.Subset.refl []
  | succ left ih =>
    rw [occurrences]
    cases hmembers : members x (detectFormat x.cm name data) name data with
    | some ms =>
      rw [analyzeDepth_members hmembers]
      intro c hc
      have hmerged := mem_dedupeBy_last hc
      rw [@get_foldl _ Report.certificates (fun _ _ => rfl) (fun _ _ => rfl)] at hmerged
      obtain ⟨e, he, hce⟩ := List.mem_flatMap.mp ((List.mem_append.mp hmerged).resolve_left
        List.not_mem_nil)
      exact List.mem_flatMap.mpr ⟨e, he, ih e.name e.data hce⟩
    | none =>
      rw [analyzeDepth_image hmembers]
      exact fun c hc => mem_dedupeBy_last hc

/-- The algorithms of what occurs of certificates occur. -/
theorem certificateAlgorithms_subset (left : Nat) (name : String) (data : Bytes) :
    (occurrences x Report.certificates left name data).flatMap (certificateAlgorithms x) ⊆
      occurrences x (referencedAlgorithms x) left name data := by
  induction left generalizing name data with
  | zero => exact List.Subset.refl []
  | succ left ih =>
    rw [occurrences, occurrences]
    cases members x (detectFormat x.cm name data) name data with
    | some ms =>
      intro a ha
      obtain ⟨c, hc, hac⟩ := List.mem_flatMap.mp ha
      obtain ⟨e, he, hce⟩ := List.mem_flatMap.mp hc
      exact List.mem_flatMap.mpr ⟨e, he,
        ih e.name e.data (List.mem_flatMap.mpr ⟨c, hce, hac⟩)⟩
    | none => exact List.subset_append_right _ _

/-- Each level adds the algorithms of its certificates, which are there already. -/
theorem alike_algorithms {obs : AlgorithmFinding → A}
    (hobs : ∀ prev a, obs (mergeAlgorithms prev a) = obs prev ⊔ obs a) (left : Nat) (name : String) (data : Bytes) :
    Alike AlgorithmFinding.algorithm obs
      (gotten Report.algorithms (analyzeDepth x left name data))
      (occurrences x (referencedAlgorithms x) left name data) := by
  have hdedupe : ∀ findings,
      Alike AlgorithmFinding.algorithm obs (dedupeAlgorithms findings) findings :=
    @alike_dedupeBy _ A _ AlgorithmFinding.algorithm AlgorithmFinding.algorithm mergeAlgorithms obs
      (fun _ _ _ => rfl) hobs
  induction left generalizing name data with
  | zero => exact alike_refl []
  | succ left ih =>
    cases hmembers : members x (detectFormat x.cm name data) name data with
    | some ms =>
      have hcertificates := @certificateAlgorithms_subset x (left + 1) name data
      rw [occurrences, occurrences] at hcertificates
      simp only [hmembers] at hcertificates
      rw [analyzeDepth_members hmembers, occurrences]
      simp only [hmembers]
      refine (hdedupe _).trans ?_
      rw [@get_foldl _ Report.algorithms (fun _ _ => rfl) (fun _ _ => rfl),
        @get_foldl _ Report.certificates (fun _ _ => rfl) (fun _ _ => rfl)]
      refine Alike.trans (Alike.append (alike_flatMap fun e _ => ih e.name e.data) (alike_refl _))
        (alike_absorb fun a ha => hcertificates ?_)
      obtain ⟨c, hc, hac⟩ := List.mem_flatMap.mp ha
      obtain ⟨e, he, hce⟩ := List.mem_flatMap.mp hc
      exact List.mem_flatMap.mpr ⟨c, List.mem_flatMap.mpr
        ⟨e, he, certificates_subset left e.name e.data hce⟩, hac⟩
    | none =>
      rw [analyzeDepth_image hmembers, occurrences]
      simp only [hmembers]
      exact hdedupe _

end Merging

section Observations

variable {F : Type} {key : F → String} {occ out : List F}

/-- The set of the markers of a finding. -/
def markersOf (markers : F → List String) (f : F) : Set String := {s | s ∈ markers f}

theorem mem_union {s : String} {a b : List String} : s ∈ union a b ↔ s ∈ a ∨ s ∈ b := by
  rw [union, List.mem_mergeSort, List.mem_dedup, List.mem_append]

theorem setOf_union (a b : List String) :
    {s | s ∈ union a b} = ({s | s ∈ a} ⊔ {s | s ∈ b} : Set String) :=
  Set.ext fun _ => mem_union

theorem united_of_alike {markers : F → List String} (h : Alike key (markersOf markers) out occ)
    (hnodup : (out.map key).Nodup) : United key occ out markers := by
  intro f hf s
  have hlub := isLUB_of_alike h hnodup hf
  constructor
  · intro hs
    have hall : markersOf markers f ≤ {s | ∃ g ∈ occ, key g = key f ∧ s ∈ markers g} := by
      refine hlub.2 ?_
      rintro m ⟨g, hg, hk, rfl⟩ t ht
      exact ⟨g, hg, hk, ht⟩
    exact hall hs
  · rintro ⟨g, hg, hk, hs⟩
    exact hlub.1 ⟨g, hg, hk, rfl⟩ hs

theorem greatest_of_alike {confidence : F → Nat} (h : Alike key confidence out occ)
    (hnodup : (out.map key).Nodup) : Greatest key occ out confidence := by
  intro f hf
  have hlub := isLUB_of_alike h hnodup hf
  refine ⟨?_, hlub.1⟩
  by_contra hnone
  obtain ⟨g, hg, hk⟩ := List.mem_map.mp ((h.keys (key f)).mp (List.mem_map_of_mem hf))
  have hle : ∀ g' ∈ occ, key g' = key f → confidence g' ≤ confidence f - 1 := by
    intro g' hg' hk'
    have hbound := hlub.1 ⟨g', hg', hk', rfl⟩
    have hne : confidence g' ≠ confidence f := fun heq => hnone ⟨g', hg', hk', heq⟩
    omega
  have hless : confidence f ≤ confidence f - 1 := by
    refine hlub.2 ?_
    rintro n ⟨g', hg', hk', rfl⟩
    exact hle g' hg' hk'
  have hg' := hle g hg hk
  exact hnone ⟨g, hg, hk, by omega⟩

theorem holds_of_alike {p : F → Bool} (h : Alike key (fun f => p f = true) out occ)
    (hnodup : (out.map key).Nodup) {f : F} (hf : f ∈ out) :
    p f = true ↔ ∃ g ∈ occ, key g = key f ∧ p g = true := by
  have hlub := isLUB_of_alike h hnodup hf
  constructor
  · intro hp
    have hall : (p f = true) ≤ (∃ g ∈ occ, key g = key f ∧ p g = true : Prop) := by
      refine hlub.2 ?_
      rintro m ⟨g, hg, hk, rfl⟩ hp
      exact ⟨g, hg, hk, hp⟩
    exact hall hp
  · rintro ⟨g, hg, hk, hp⟩
    exact hlub.1 ⟨g, hg, hk, rfl⟩ hp

end Observations

section Reports

theorem exists_analyzed (x : Setup) (left : Nat) (name : String) (data : Bytes) :
    ∃ merged, analyzeDepth x (left + 1) name data = .ok (finalize x merged) := by
  cases hmembers : members x (detectFormat x.cm name data) name data with
  | some ms => exact ⟨_, analyzeDepth_members hmembers⟩
  | none => exact ⟨_, analyzeDepth_image hmembers⟩

section Kinds

variable {F A : Type} [SemilatticeSup A] {key order : F → String} {merge : F → F → F} {obs : F → A}
  {get : Report → List F} {markers : F → List String} {merged : Report}

theorem Kind.reported (hk : Kind x key order merge get)
    (hobs : ∀ u v, obs (merge u v) = obs u ⊔ obs v) (hok : analyzeBytes x name data = .ok rep) :
    Alike key obs (get rep) (occurrences x get (x.limits.maxArchiveDepth + 1) name data) := by
  have h := hk.alike hobs (x.limits.maxArchiveDepth + 1) name data
  rwa [← analyzeBytes, hok] at h

theorem Kind.listed (hk : Kind x key order merge get)
    (hok : analyzeBytes x name data = .ok (finalize x merged)) :
    Listed key order (occurrences x get (x.limits.maxArchiveDepth + 1) name data)
      (get (finalize x merged)) := by
  have halike := @Kind.reported x _ _ _ _ PUnit _ key order merge (fun _ => PUnit.unit) get hk
    (fun _ _ => rfl) hok
  have hlisted := @listed_dedupeBy _ key order merge _ (get merged) hk.key_merge fun _ => Iff.rfl
  rw [← hk.final] at hlisted
  exact ⟨halike.keys, hlisted.once, hlisted.sorted⟩

theorem Kind.united (hk : Kind x key order merge get)
    (hmarkers : ∀ u v, markers (merge u v) = union (markers u) (markers v))
    (hok : analyzeBytes x name data = .ok (finalize x merged)) :
    United key (occurrences x get (x.limits.maxArchiveDepth + 1) name data)
      (get (finalize x merged)) markers := by
  refine united_of_alike (hk.reported (fun u v => ?_) hok) (hk.listed hok).once
  rw [markersOf, hmarkers, setOf_union]
  rfl

theorem Kind.greatest {confidence : F → Nat} (hk : Kind x key order merge get)
    (hconfidence : ∀ u v, confidence (merge u v) = max (confidence u) (confidence v))
    (hok : analyzeBytes x name data = .ok (finalize x merged)) :
    Greatest key (occurrences x get (x.limits.maxArchiveDepth + 1) name data)
      (get (finalize x merged)) confidence :=
  greatest_of_alike (hk.reported hconfidence hok) (hk.listed hok).once

end Kinds

section Algorithms

variable {A : Type} [SemilatticeSup A] {obs : AlgorithmFinding → A} {merged : Report}

theorem reported_algorithms (hobs : ∀ prev a, obs (mergeAlgorithms prev a) = obs prev ⊔ obs a)
    (hok : analyzeBytes x name data = .ok rep) : Alike AlgorithmFinding.algorithm obs rep.algorithms
      (occurrences x (referencedAlgorithms x) (x.limits.maxArchiveDepth + 1) name data) := by
  have h := @alike_algorithms x _ _ obs hobs (x.limits.maxArchiveDepth + 1) name data
  rwa [← analyzeBytes, hok] at h

theorem listed_algorithms (hok : analyzeBytes x name data = .ok (finalize x merged)) :
    Listed AlgorithmFinding.algorithm AlgorithmFinding.algorithm
      (occurrences x (referencedAlgorithms x) (x.limits.maxArchiveDepth + 1) name data)
      (finalize x merged).algorithms := by
  have halike := @reported_algorithms x name data _ PUnit _ (fun _ => PUnit.unit) (fun _ _ => rfl) hok
  have hlisted := @listed_dedupeBy _ AlgorithmFinding.algorithm AlgorithmFinding.algorithm
    mergeAlgorithms _ (referencedAlgorithms x merged) (fun _ _ _ => rfl) fun _ => Iff.rfl
  exact ⟨halike.keys, hlisted.once, hlisted.sorted⟩

end Algorithms

theorem aggregates_analyzed {merged : Report}
    (hok : analyzeBytes x name data = .ok (finalize x merged)) :
    Aggregates x name data (finalize x merged) where
  libraries := libraryKind.listed hok
  libraryMarkers := libraryKind.united (fun _ _ => rfl) hok
  libraryConfidence := libraryKind.greatest (fun _ _ => rfl) hok
  algorithms := listed_algorithms hok
  algorithmMarkers := united_of_alike
    (reported_algorithms (fun prev a => setOf_union prev.markers a.markers) hok)
    (listed_algorithms hok).once
  algorithmConfidence := greatest_of_alike (reported_algorithms (fun _ _ => rfl) hok)
    (listed_algorithms hok).once
  referenced a ha := by
    refine holds_of_alike (reported_algorithms (fun prev a => ?_) hok) (listed_algorithms hok).once ha
    exact propext Bool.or_eq_true_iff
  cryptoAPIs := apiKind.listed hok
  apiMarkers := apiKind.united (fun _ _ => rfl) hok
  protocols := protocolKind.listed hok
  protocolMarkers := protocolKind.united (fun _ _ => rfl) hok
  rules := ruleKind.listed hok
  ruleMarkers := ruleKind.united (fun _ _ => rfl) hok
  certificates := certificateKind.listed hok

end Reports

section Again

theorem union_nil_union (a b : List String) : union (union a b) [] = union a b := by
  have hnodup : (union a b).Nodup :=
    (List.mergeSort_perm _ _).nodup_iff.mpr (List.nodup_dedup (a ++ b))
  have hsorted := List.pairwise_mergeSort (le_trans id) (le_total id) (a ++ b).dedup
  rw [union, List.append_nil, List.Nodup.dedup hnodup]
  exact List.mergeSort_of_pairwise hsorted

/-- An algorithm without markers of its own that has been merged adds nothing. -/
theorem mergeAlgorithms_absorbs {findings : List AlgorithmFinding} {a r : AlgorithmFinding}
    (ha : a ∈ findings) (hmarkers : a.markers = [])
    (hr : summary mergeAlgorithms findings = some r) : mergeAlgorithms r a = r := by
  have hreferenced : a.referenced = true → r.referenced = true :=
    (@summary_le_iff _ Prop mergeAlgorithms findings _ (fun a => a.referenced = true)
      (fun _ _ => propext Bool.or_eq_true_iff) r hr _).mp (le_refl _) a ha
  have hconfidence : a.confidence ≤ r.confidence :=
    (@summary_le_iff _ Nat mergeAlgorithms findings _ AlgorithmFinding.confidence
      (fun _ _ => rfl) r hr _).mp (le_refl _) a ha
  have hunion : union r.markers [] = r.markers := by
    refine summary_rule (fun vs r => ∀ a ∈ vs, a.markers = [] → union r.markers [] = r.markers)
      (fun v => ?_) (fun vs r v _ => ?_) hr a ha hmarkers
    · -- a finding that is met alone has no markers
      intro a ha hnil
      rw [← List.mem_singleton.mp ha, hnil, union, List.append_nil, List.dedup_nil,
        List.mergeSort_nil]
    · exact fun _ _ _ => union_nil_union _ _
  have hor : (r.referenced || a.referenced) = r.referenced := by
    cases hra : a.referenced with
    | false => exact Bool.or_false _
    | true => rw [hreferenced hra]; rfl
  rw [mergeAlgorithms, hmarkers, hunion, hor, Nat.max_eq_left hconfidence]

theorem markers_certificateAlgorithms {c : CertificateFinding} {a : AlgorithmFinding}
    (ha : a ∈ certificateAlgorithms x c) : a.markers = [] := by
  obtain ⟨n, -, rfl⟩ := List.mem_map.mp ha
  rfl

theorem Kind.settled {F : Type} {key order : F → String} {merge : F → F → F}
    {get : Report → List F} (hk : Kind x key order merge get) (merged : Report) :
    get (finalize x (finalize x merged)) = get (finalize x merged) := by
  rw [hk.final, hk.final, dedupeBy_dedupeBy hk.key_merge]

theorem settled_algorithms (merged : Report) :
    (finalize x (finalize x merged)).algorithms = (finalize x merged).algorithms := by
  have hlisted := @listed_dedupeBy _ AlgorithmFinding.algorithm AlgorithmFinding.algorithm
    mergeAlgorithms _ (referencedAlgorithms x merged) (fun _ _ _ => rfl) fun _ => Iff.rfl
  refine dedupeBy_absorbed hlisted.once hlisted.sorted fun a ha => ?_
  obtain ⟨c, hc, hac⟩ := List.mem_flatMap.mp ha
  have hmem : a ∈ referencedAlgorithms x merged :=
    List.mem_append_right _ (List.mem_flatMap.mpr ⟨c, mem_dedupeBy_last hc, hac⟩)
  refine ⟨(hlisted.names _).mpr (List.mem_map_of_mem hmem), fun r hr hkey => ?_⟩
  obtain ⟨f, hf, hsummary⟩ := mem_values.mp (List.mem_mergeSort.mp hr)
  have hfkey := @key_summary _ AlgorithmFinding.algorithm mergeAlgorithms _ _ _
    (fun _ _ _ => rfl) hsummary
  exact mergeAlgorithms_absorbs (List.mem_filter.mpr ⟨hmem, decide_eq_true (hkey.symm.trans hfkey)⟩)
    (markers_certificateAlgorithms hac) hsummary

theorem settled_finalize (merged : Report) : Settled x (finalize x merged) where
  libraries := libraryKind.settled merged
  algorithms := settled_algorithms merged
  cryptoAPIs := apiKind.settled merged
  protocols := protocolKind.settled merged
  rules := ruleKind.settled merged
  certificates := certificateKind.settled merged
  anyOrder out hout := by
    have hlisted := @listed_dedupeBy _ fingerprint (fun c => c.metadata.subject)
      (fun _ c => c) _ merged.certificates (fun _ _ h => h.symm) fun _ => Iff.rfl
    have hvalues := @values_absorbed _ fingerprint (fun _ c => c) _ [] hlisted.once nofun
    rw [List.append_nil] at hvalues
    exact hout.perm.trans (List.Perm.of_eq hvalues)

end Again

/-- The report of an archive, whatever it nests, has all that occurs in the images, once each, and
is finished. -/
theorem report_aggregates (x : Setup) (name : String) (data : Bytes) :
    ∃ rep, analyzeBytes x name data = .ok rep ∧ Aggregates x name data rep ∧ Settled x rep := by
  obtain ⟨merged, hmerged⟩ := exists_analyzed x x.limits.maxArchiveDepth name data
  exact ⟨finalize x merged, hmerged, aggregates_analyzed hmerged, settled_finalize merged⟩

end RivicQ.Properties.Aggregation
