import RivicQ.Intelligence.PQCClass
import RivicQ.Properties.Verdicts
import RivicQ.Lib.Bytes

namespace RivicQ.Properties.Dedup

open RivicQ.Lib.GoStrings RivicQ.Lib.Groups RivicQ.Properties.Verdicts
open RivicQ.Intelligence.Findings RivicQ.Intelligence.Policies RivicQ.Intelligence.Fingerprint

/-- The key of a finding, under the rule it is given. -/
@[irreducible] def identity (cm : CaseMap) (f : Finding) : List UInt8 :=
  fingerprintKey cm { f with ruleID := ruleIDFor cm f }

/-- What the default policies read of a finding. -/
def view (f : Finding) : Finding where
  algorithm := f.algorithm
  evidence := f.evidence
  keyLength := f.keyLength
  location := f.location
  component := f.component
  cve := f.cve
  kev := f.kev
  usage := f.usage
  quantumSafe := f.quantumSafe

variable {pl : Platform} {cm : CaseMap} {digest : List UInt8 → String} {now : Nat → Time}
  {t : Time} {f g prev r : Finding} {fs items : List Finding} {p : Policy}

theorem matches_view (hp : p ∈ defaultPolicies pl) : p.matches (view f) = p.matches f := by
  simp only [defaultPolicies, List.mem_cons, List.not_mem_nil, or_false] at hp
  obtain rfl | rfl | rfl | rfl | rfl | rfl | rfl | rfl := hp <;> rfl

theorem fingerprint_finalizeFinding :
    (finalizeFinding cm digest t f).fingerprint = digest (identity cm f) := by
  rw [identity]
  rfl

theorem view_mergeFinding :
    view (mergeFinding prev f) = { view prev with kev := prev.kev || f.kev } := by
  unfold mergeFinding view
  cases f.kev <;> simp

/-- What a merged finding keeps of the findings it stands for. -/
def Represents (items : List Finding) (r : Finding) : Prop :=
  ∃ f rest, items = f :: rest ∧ view r = { view f with kev := items.any Finding.kev }

theorem represents_summary (h : summary mergeFinding items = some r) : Represents items r := by
  refine summary_rule Represents (fun f => ⟨f, [], rfl, ?_⟩) ?_ h
  · simp [view]
  · rintro _ r g ⟨f, rest, rfl, hview⟩
    have hkev : r.kev = (f :: rest).any Finding.kev := congrArg Finding.kev hview
    refine ⟨f, rest ++ [g], rfl, ?_⟩
    have hany : (f :: rest ++ [g]).any Finding.kev = ((f :: rest).any Finding.kev || g.kev) := by
      rw [List.any_append]
      exact congrArg _ (Bool.or_false g.kev)
    rw [view_mergeFinding, hview, hkev, hany]

/-- The findings of a list with a key. -/
def ofKey (cm : CaseMap) (k : List UInt8) (fs : List Finding) : List Finding :=
  fs.filter fun f => identity cm f = k

/-- The findings as the loop stamps them, each at its own time. -/
def finalized (cm : CaseMap) (digest : List UInt8 → String) (now : Nat → Time)
    (fs : List (Finding × Nat)) : List Finding :=
  fs.map fun x => finalizeFinding cm digest (now x.2) x.1

theorem fingerprint_eq (hd : Function.Injective digest) (k : List UInt8) :
    ((finalizeFinding cm digest t f).fingerprint = digest k) = (identity cm f = k) := by
  rw [fingerprint_finalizeFinding, hd.eq_iff]

theorem filter_finalized (hd : Function.Injective digest) (k : List UInt8)
    (fs : List (Finding × Nat)) :
    (finalized cm digest now fs).filter (fun f => f.fingerprint = digest k) =
      finalized cm digest now (fs.filter fun x => identity cm x.1 = k) := by
  rw [finalized, List.filter_map]
  simp only [Function.comp_def, fingerprint_eq hd]
  rfl

theorem ofKey_zipIdx (k : List UInt8) :
    (fs.zipIdx.filter fun x => identity cm x.1 = k).map Prod.fst = ofKey cm k fs := by
  have hmap := List.filter_map (f := Prod.fst) (p := fun f => decide (identity cm f = k))
    (l := fs.zipIdx)
  rw [List.zipIdx_map_fst] at hmap
  exact hmap.symm

theorem represents_finalized {zs : List (Finding × Nat)}
    (h : Represents (finalized cm digest now zs) r) : Represents (zs.map Prod.fst) r := by
  obtain ⟨f, rest, hitems, hview⟩ := h
  cases zs with
  | nil => exact nomatch hitems
  | cons z zs =>
    refine ⟨z.1, zs.map Prod.fst, rfl, hview.trans ?_⟩
    have hf : finalizeFinding cm digest (now z.2) z.1 = f := (List.cons.inj hitems).1
    have hany : (finalized cm digest now (z :: zs)).any Finding.kev =
        ((z :: zs).map Prod.fst).any Finding.kev := by
      rw [finalized, List.any_map, List.any_map]
      rfl
    rw [← hf, hany]
    rfl

theorem mem_dedup_iff (hd : Function.Injective digest) : r ∈ dedupFindings cm digest now fs ↔
    ∃ x ∈ fs.zipIdx, summary mergeFinding (finalized cm digest now
      (fs.zipIdx.filter fun y => identity cm y.1 = identity cm x.1)) = some r := by
  unfold dedupFindings
  split_ifs with hfs
  · subst hfs
    simp
  · change r ∈ (group _ mergeFinding (finalized cm digest now fs.zipIdx)).values ↔ _
    rw [mem_values]
    constructor
    · rintro ⟨v, hv, h⟩
      obtain ⟨x, hx, rfl⟩ := List.mem_map.mp hv
      rw [fingerprint_finalizeFinding, filter_finalized hd] at h
      exact ⟨x, hx, h⟩
    · rintro ⟨x, hx, h⟩
      refine ⟨finalizeFinding cm digest (now x.2) x.1, List.mem_map.mpr ⟨x, hx, rfl⟩, ?_⟩
      rw [fingerprint_finalizeFinding, filter_finalized hd]
      exact h

/-- The deduplicated findings stand each for those with one key. -/
theorem mem_dedupFindings (hd : Function.Injective digest)
    (hr : r ∈ dedupFindings cm digest now fs) :
    ∃ g ∈ fs, Represents (ofKey cm (identity cm g) fs) r := by
  obtain ⟨x, hx, hsummary⟩ := (mem_dedup_iff hd).mp hr
  have hrep := represents_finalized (represents_summary hsummary)
  rw [ofKey_zipIdx] at hrep
  exact ⟨x.1, List.fst_mem_of_mem_zipIdx hx, hrep⟩

theorem exists_dedupFindings (hd : Function.Injective digest) (hg : g ∈ fs) :
    ∃ r ∈ dedupFindings cm digest now fs, Represents (ofKey cm (identity cm g) fs) r := by
  obtain ⟨i, hi⟩ := List.mem_iff_getElem?.mp hg
  have hx : (g, i) ∈ fs.zipIdx := List.mem_zipIdx_iff_getElem?.mpr hi
  have hne : finalized cm digest now
      (fs.zipIdx.filter fun y => identity cm y.1 = identity cm g) ≠ [] := by
    rw [finalized, ne_eq, List.map_eq_nil_iff]
    exact List.ne_nil_of_mem (List.mem_filter.mpr ⟨hx, decide_eq_true rfl⟩)
  obtain ⟨r, hsummary⟩ := summary_isSome mergeFinding hne
  have hrep := represents_finalized (represents_summary hsummary)
  rw [ofKey_zipIdx] at hrep
  exact ⟨r, (mem_dedup_iff hd).mpr ⟨(g, i), hx, hsummary⟩, hrep⟩

/-- The finding is the first one of a list with its key. -/
def First (cm : CaseMap) (fs : List Finding) (f : Finding) : Prop :=
  fs.find? (fun g => identity cm g = identity cm f) = some f

/-- The finding is gated, and a policy with this action matches it. -/
def Meets (pl : Platform) (a : Action) (f : Finding) : Prop :=
  excludedPath pl f.location = false ∧ ∃ p ∈ defaultPolicies pl, p.action = a ∧ p.matches f = true

/-- The finding is gated and has a CVE, and one with its key is known to be exploited. -/
def Inherits (pl : Platform) (fs : List Finding) (f : Finding) : Prop :=
  excludedPath pl f.location = false ∧ f.cve ≠ "" ∧
    ∃ g ∈ fs, identity pl.cases g = identity pl.cases f ∧ g.kev = true

/-- The first findings of the keys decide as all findings do. -/
def Kept (pl : Platform) (fs : List Finding) : Prop :=
  ((∃ f ∈ fs, Meets pl .block f) →
    ∃ f, First pl.cases fs f ∧ (Meets pl .block f ∨ Inherits pl fs f)) ∧
  ((¬ ∃ f ∈ fs, Meets pl .block f) →
    (¬ ∃ f, First pl.cases fs f ∧ Inherits pl fs f) ∧
      ((∃ f ∈ fs, Meets pl .warn f) → ∃ f, First pl.cases fs f ∧ Meets pl .warn f))

theorem first_ofKey {k : List UInt8} {rest : List Finding} (h : ofKey cm k fs = f :: rest) :
    First cm fs f ∧ identity cm f = k := by
  have hmem : f ∈ ofKey cm k fs := h ▸ List.mem_cons_self
  have hk : identity cm f = k := of_decide_eq_true (List.mem_filter.mp hmem).2
  have hhead : (ofKey cm k fs).head? = some f := h ▸ rfl
  rw [ofKey, List.head?_filter, ← hk] at hhead
  exact ⟨hhead, hk⟩

theorem ofKey_first (h : First cm fs f) : ∃ rest, ofKey cm (identity cm f) fs = f :: rest := by
  have hhead : (ofKey cm (identity cm f) fs).head? = some f := by
    rw [ofKey, List.head?_filter]
    exact h
  exact List.head?_eq_some_iff.mp hhead

theorem mem_first (h : First cm fs f) : f ∈ fs := List.mem_of_find?_eq_some h

theorem meets_view {a : Action} : Meets pl a (view f) ↔ Meets pl a f :=
  and_congr_right fun _ => exists_congr fun _ => and_congr_right fun hp => by
    rw [matches_view hp]

theorem any_kev : (ofKey cm (identity cm f) fs).any Finding.kev = true ↔
    ∃ g ∈ fs, identity cm g = identity cm f ∧ g.kev = true := by
  simp only [ofKey, List.any_filter, List.any_eq_true, Bool.and_eq_true, decide_eq_true_eq]

/-- A known exploit adds to the policies that match the one about exploits. -/
theorem matches_kev (hp : p ∈ defaultPolicies pl) :
    p.matches { g with kev := true } = true →
      p.matches g = true ∨ p.action = .block ∧ g.cve ≠ "" := by
  simp only [defaultPolicies, List.mem_cons, List.not_mem_nil, or_false] at hp
  obtain rfl | rfl | rfl | rfl | rfl | rfl | rfl | rfl := hp
  case inr.inr.inr.inr.inl => exact fun h => .inr ⟨rfl, by simpa [Policy.matches, matchKEV] using h⟩
  all_goals exact .inl

theorem matches_kev_mono (hp : p ∈ defaultPolicies pl) :
    p.matches g = true → p.matches { g with kev := true } = true := by
  simp only [defaultPolicies, List.mem_cons, List.not_mem_nil, or_false] at hp
  obtain rfl | rfl | rfl | rfl | rfl | rfl | rfl | rfl := hp
  case inr.inr.inr.inr.inl =>
    intro h
    simp only [Policy.matches, Option.any_some, matchKEV, Bool.and_eq_true] at h ⊢
    exact ⟨trivial, h.2⟩
  all_goals exact id

theorem exists_kev (hcve : g.cve ≠ "") : ∃ p ∈ defaultPolicies pl,
    p.action = .block ∧ p.matches { g with kev := true } = true := by
  refine ⟨_, .tail _ (.tail _ (.tail _ (.tail _ (.head _)))), rfl, ?_⟩
  simp [Policy.matches, matchKEV, hcve]

theorem meets_kev {a : Action} {b : Bool} : Meets pl a { g with kev := g.kev || b } ↔
    Meets pl a g ∨ a = .block ∧ excludedPath pl g.location = false ∧ g.cve ≠ "" ∧ b = true := by
  cases b with
  | false => simp
  | true =>
    rw [Bool.or_true]
    constructor
    · rintro ⟨hout, p, hp, ha, hm⟩
      obtain hm | ⟨hblock, hcve⟩ := matches_kev hp hm
      · exact .inl ⟨hout, p, hp, ha, hm⟩
      · exact .inr ⟨ha ▸ hblock, hout, hcve, rfl⟩
    · rintro (⟨hout, p, hp, ha, hm⟩ | ⟨rfl, hout, hcve, _⟩)
      · exact ⟨hout, p, hp, ha, matches_kev_mono hp hm⟩
      · exact ⟨hout, exists_kev hcve⟩

/-- A finding that stands for its key meets a policy as the first finding of the key does,
but for the exploits known of others. -/
theorem meets_represents {a : Action} (hfirst : First pl.cases fs f)
    (hrep : Represents (ofKey pl.cases (identity pl.cases f) fs) r) :
    Meets pl a r ↔ Meets pl a f ∨ a = .block ∧ Inherits pl fs f := by
  obtain ⟨rest, hkey⟩ := ofKey_first hfirst
  obtain ⟨f', rest', hkey', hview⟩ := hrep
  obtain rfl : f = f' := (List.cons.inj (hkey.symm.trans hkey')).1
  have hself : (ofKey pl.cases (identity pl.cases f) fs).any Finding.kev =
      (f.kev || (ofKey pl.cases (identity pl.cases f) fs).any Finding.kev) := by
    rw [hkey]
    simp
  rw [hself] at hview
  rw [← meets_view, hview, Inherits, ← any_kev]
  exact meets_kev.trans (or_congr meets_view Iff.rfl)

/-- The deduplicated findings meet a policy exactly if a first one does, with the exploits
known of its key. -/
theorem meets_dedup {a : Action} (hd : Function.Injective digest) :
    (∃ r ∈ dedupFindings pl.cases digest now fs, Meets pl a r) ↔
      ∃ f, First pl.cases fs f ∧ (Meets pl a f ∨ a = .block ∧ Inherits pl fs f) := by
  constructor
  · rintro ⟨r, hr, hmeets⟩
    obtain ⟨g, hg, hrep⟩ := mem_dedupFindings hd hr
    have hrep' := hrep
    obtain ⟨f, rest, hkey, _⟩ := hrep'
    obtain ⟨hfirst, hk⟩ := first_ofKey hkey
    rw [← hk] at hrep
    exact ⟨f, hfirst, (meets_represents hfirst hrep).mp hmeets⟩
  · rintro ⟨f, hfirst, hmeets⟩
    obtain ⟨r, hr, hrep⟩ : ∃ r ∈ dedupFindings pl.cases digest now fs, Represents _ r :=
      exists_dedupFindings hd (mem_first hfirst)
    exact ⟨r, hr, (meets_represents hfirst hrep).mpr hmeets⟩

theorem decision_block : (evaluate pl fs (some (defaultPolicies pl))).decision = "BLOCK" ↔
    ∃ f ∈ fs, Meets pl .block f := blocks_iff

theorem decision_warn : (evaluate pl fs (some (defaultPolicies pl))).decision = "WARN" ↔
    (¬ ∃ f ∈ fs, Meets pl .block f) ∧ ∃ f ∈ fs, Meets pl .warn f :=
  warns_iff.trans (and_congr_left' (not_congr decision_block))

theorem blocked_dedup (hd : Function.Injective digest) :
    (∃ r ∈ dedupFindings pl.cases digest now fs, Meets pl .block r) ↔
      ∃ f, First pl.cases fs f ∧ (Meets pl .block f ∨ Inherits pl fs f) := by
  rw [meets_dedup hd]
  simp only [true_and]

theorem warned_dedup (hd : Function.Injective digest) :
    (∃ r ∈ dedupFindings pl.cases digest now fs, Meets pl .warn r) ↔
      ∃ f, First pl.cases fs f ∧ Meets pl .warn f := by
  rw [meets_dedup hd]
  simp

/-- Deduplication keeps the decision exactly if the first findings of the keys decide as all
of them do. -/
theorem dedup_decides (hd : Function.Injective digest) :
    (evaluate pl (dedupFindings pl.cases digest now fs) (some (defaultPolicies pl))).decision =
      (evaluate pl fs (some (defaultPolicies pl))).decision ↔ Kept pl fs := by
  rw [decision_congr, decision_block, decision_block, decision_warn, decision_warn,
    blocked_dedup hd, warned_dedup hd, Kept]
  have hwarn : (∃ f, First pl.cases fs f ∧ Meets pl .warn f) → ∃ f ∈ fs, Meets pl .warn f :=
    fun ⟨f, hfirst, h⟩ => ⟨f, mem_first hfirst, h⟩
  by_cases hall : ∃ f ∈ fs, Meets pl .block f
  · simp only [hall, iff_true, not_true_eq_false, false_and, iff_false, true_implies,
      false_implies, and_true]
    exact and_iff_left_of_imp fun h hnot => hnot.1 h
  · have hblock : (∃ f, First pl.cases fs f ∧ (Meets pl .block f ∨ Inherits pl fs f)) ↔
        ∃ f, First pl.cases fs f ∧ Inherits pl fs f :=
      exists_congr fun f => and_congr_right fun hfirst =>
        or_iff_right fun h => hall ⟨f, mem_first hfirst, h⟩
    rw [hblock]
    simp only [hall, iff_false, not_false_eq_true, true_and, true_implies, false_implies]
    refine and_congr_right fun hnone => ?_
    simp only [hnone, not_false_eq_true, true_and]
    exact ⟨Iff.mpr, fun h => ⟨hwarn, h⟩⟩

def tabbed : Finding where
  ruleID := "tls.version"
  evidence := "TLS\t1.0"
  location := "server.conf"

def spaced : Finding := { tabbed with evidence := "TLS 1.0" }

/-- A digest without collisions, which is that of SHA-256 on the key of these findings. -/
def sampleDigest (key : List UInt8) : String :=
  if key = bytes "|tls.version||0|server.conf|0|||tls 1.0" then
    "752cedc47fa5d4df1ac9bbc9ec7fde14e798009dcba52ac90a84a28ef6a4fd82"
  else String.ofList ('x' :: key.map fun b => Char.ofNat b.toNat)

theorem sampleDigest_injective : Function.Injective sampleDigest := by
  intro k k' h
  unfold sampleDigest at h
  split_ifs at h with hk hk' hk'
  · exact hk.trans hk'.symm
  · exact absurd (congrArg (fun s => s.toList.head?) h) (by simp)
  · exact absurd (congrArg (fun s => s.toList.head?) h) (by simp)
  · rw [String.ofList_inj, List.cons.injEq] at h
    exact List.map_injective_iff.mpr Lib.Bytes.ofNat_injective h.2

/-- One finding met twice is gated as one. -/
theorem dedup_decides_twice : Function.Injective sampleDigest ∧
    ((evaluate ⟨asciiCase, '/'⟩ (dedupFindings asciiCase sampleDigest (fun t => t + 1)
        [spaced, spaced]) (some (defaultPolicies ⟨asciiCase, '/'⟩))).decision =
      (evaluate ⟨asciiCase, '/'⟩ [spaced, spaced]
        (some (defaultPolicies ⟨asciiCase, '/'⟩))).decision ↔
      Kept ⟨asciiCase, '/'⟩ [spaced, spaced]) :=
  ⟨sampleDigest_injective, dedup_decides sampleDigest_injective⟩

/-- Evidence spelled with a tab stands for the same evidence with a blank, and hides it. -/
theorem tabbed_hides : ¬ ∀ (pl : Platform) (digest : List UInt8 → String) (now : Nat → Time)
    (fs : List Finding), Function.Injective digest →
      (evaluate pl (dedupFindings pl.cases digest now fs) (some (defaultPolicies pl))).decision =
        (evaluate pl fs (some (defaultPolicies pl))).decision := by
  intro h
  have heq := h ⟨asciiCase, '/'⟩ sampleDigest (fun _ => 1) [tabbed, spaced] sampleDigest_injective
  have hraw : (evaluate ⟨asciiCase, '/'⟩ [tabbed, spaced]
      (some (defaultPolicies ⟨asciiCase, '/'⟩))).decision = "BLOCK" := by decide
  have hdedup : (evaluate ⟨asciiCase, '/'⟩
      (dedupFindings asciiCase sampleDigest (fun _ => 1) [tabbed, spaced])
      (some (defaultPolicies ⟨asciiCase, '/'⟩))).decision = "ALLOW" := by decide
  exact absurd (hdedup.symm.trans (heq.trans hraw)) (by decide)

end RivicQ.Properties.Dedup
