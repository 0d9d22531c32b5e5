import Mathlib.Algebra.BigOperators.Group.Finset.Basic
import RivicQ.Lib.Firsts
import RivicQ.Quantum.QiskitProfile

namespace RivicQ.Properties.Estates

open RivicQ.Lib.GoStrings RivicQ.Lib.Tables RivicQ.Lib.Marks RivicQ.Lib.Casing RivicQ.Lib.Firsts
open RivicQ.Quantum.QiskitProfile

/-- The name that a finding is counted under. -/
def name (cm : CaseMap) (f : FindingInput) : String := normalized cm f.algorithm

/-- The names that are not empty. -/
def names (cm : CaseMap) (fs : List FindingInput) : Finset String :=
  (fs.map (name cm)).toFinset.erase ""

/-- The findings that have a name. -/
def named (cm : CaseMap) (fs : List FindingInput) : List FindingInput :=
  fs.filter fun f => name cm f ≠ ""

/-- How many algorithms of a class are counted. -/
def counted (res : PipelineResult) : AttackClass → Int
  | .shor => res.shorVulnerable
  | .grover => res.groverAffected
  | .pqc => res.pqcReady
  | .none => res.unclassified

variable {cm : CaseMap} {fs gs pre post : List FindingInput} {f g : FindingInput}
  {seen : Table AlgorithmScore} {ks : List String} {res : PipelineResult} {cls : AttackClass}

section Classes

theorem attackClass_scoreFinding :
    (scoreFinding cm f).attackClass = textClass (name cm f) := by
  rw [name, ← attackClass_classify (k := f.keyLength)]
  simp only [scoreFinding, apply_ite AlgorithmScore.attackClass, ite_self]

end Classes

section Loop

@[simp] theorem algorithms_reach (res : PipelineResult) (scanner : String) :
    (res.reach cm scanner).algorithms = res.algorithms := by
  simp only [PipelineResult.reach, apply_ite PipelineResult.algorithms, ite_self]

@[simp] theorem counted_reach (res : PipelineResult) (scanner : String) (cls : AttackClass) :
    counted (res.reach cm scanner) cls = counted res cls := by
  unfold PipelineResult.reach
  split_ifs with h
  · rfl
  · cases cls <;> rfl

theorem algorithms_add (res : PipelineResult) (cl : AlgorithmScore) :
    (res.add cl).algorithms = res.algorithms ++ [cl] := by
  unfold PipelineResult.add
  cases cl.attackClass <;> rfl

theorem counted_add (res : PipelineResult) (cl : AlgorithmScore) (cls : AttackClass) :
    counted (res.add cl) cls = counted res cls + if cl.attackClass = cls then 1 else 0 := by
  unfold PipelineResult.add
  cases cl.attackClass <;> cases cls <;> simp [counted]

theorem named_cons_neg (h : name cm f = "") : named cm (f :: fs) = named cm fs :=
  List.filter_cons_of_neg (by rw [h]; decide)

theorem named_cons (h : name cm f ≠ "") : named cm (f :: fs) = f :: named cm fs :=
  List.filter_cons_of_pos (decide_eq_true h)

theorem scoreLoop_cons : scoreLoop cm seen res (f :: fs) =
    if name cm f = "" then scoreLoop cm seen (res.reach cm f.scanner) fs
    else if (seen.lookup (name cm f)).isSome then scoreLoop cm seen (res.reach cm f.scanner) fs
    else scoreLoop cm (seen.insert (name cm f) (scoreFinding cm f))
      ((res.reach cm f.scanner).add (scoreFinding cm f)) fs := rfl

/-- The loop scores and counts the first finding of each name that it has not seen. -/
theorem scoreLoop_firsts (res : PipelineResult)
    (h : ∀ k, (seen.lookup k).isSome = true ↔ k ∈ ks) :
    (scoreLoop cm seen res fs).algorithms =
        res.algorithms ++ (firstsFrom (name cm) ks (named cm fs)).map (scoreFinding cm) ∧
      ∀ cls, counted (scoreLoop cm seen res fs) cls = counted res cls +
        (firstsFrom (name cm) ks (named cm fs)).countP fun f => textClass (name cm f) = cls := by
  induction fs generalizing seen ks res with
  | nil => exact ⟨(List.append_nil _).symm, fun cls => (Int.add_zero _).symm⟩
  | cons f fs ih =>
    rw [scoreLoop_cons]
    by_cases hkey : name cm f = ""
    · have hrest := ih (res.reach cm f.scanner) h
      simp only [algorithms_reach, counted_reach] at hrest
      rwa [if_pos hkey, named_cons_neg hkey]
    rw [if_neg hkey, named_cons hkey, firstsFrom]
    by_cases hseen : name cm f ∈ ks
    · have hrest := ih (res.reach cm f.scanner) h
      simp only [algorithms_reach, counted_reach] at hrest
      rwa [if_pos ((h _).mpr hseen), if_pos hseen]
    · rw [if_neg (mt (h _).mp hseen), if_neg hseen]
      have hinsert : ∀ k, ((seen.insert (name cm f) (scoreFinding cm f)).lookup k).isSome = true ↔
          k ∈ name cm f :: ks := by
        intro k
        rw [lookup_insert_if, List.mem_cons, ← h]
        split_ifs with hk
        · exact iff_of_true rfl (.inl hk)
        · exact (or_iff_right hk).symm
      have hrest := ih ((res.reach cm f.scanner).add (scoreFinding cm f)) hinsert
      simp only [algorithms_add, counted_add, algorithms_reach, counted_reach,
        attackClass_scoreFinding, List.append_assoc] at hrest
      refine ⟨hrest.1, fun cls => (hrest.2 cls).trans ?_⟩
      rw [List.countP_cons]
      simp only [decide_eq_true_eq]
      split_ifs <;> omega

theorem lookup_none (k : String) :
    ((∅ : Table AlgorithmScore).lookup k).isSome = true ↔ k ∈ ([] : List String) := by
  rw [AList.lookup_empty]
  exact iff_of_false Bool.false_ne_true List.not_mem_nil

/-- The algorithms are those of the first finding of each name. -/
theorem algorithms_scoreFindings : (scoreFindings cm fs).algorithms =
    (firsts (name cm) (named cm fs)).map (scoreFinding cm) :=
  (scoreLoop_firsts _ lookup_none).1.trans (List.nil_append _)

end Loop

section Names

theorem mem_names {k : String} : k ∈ names cm fs ↔ k ≠ "" ∧ ∃ f ∈ fs, name cm f = k := by
  rw [names, Finset.mem_erase, List.mem_toFinset, List.mem_map]

theorem mem_named : f ∈ named cm fs ↔ f ∈ fs ∧ name cm f ≠ "" := by
  rw [named, List.mem_filter, decide_eq_true_eq]

theorem toFinset_firsts :
    ((firsts (name cm) (named cm fs)).map (name cm)).toFinset = names cm fs := by
  ext k
  rw [List.mem_toFinset, mem_map_firsts, List.mem_map, mem_names]
  constructor
  · rintro ⟨f, hf, rfl⟩
    exact ⟨(mem_named.mp hf).2, f, (mem_named.mp hf).1, rfl⟩
  · rintro ⟨hk, f, hf, rfl⟩
    exact ⟨f, mem_named.mpr ⟨hf, hk⟩, rfl⟩

/-- The names of a class are counted, each once. -/
theorem counted_scoreFindings (cls : AttackClass) : counted (scoreFindings cm fs) cls =
    ((names cm fs).filter fun k => textClass k = cls).card := by
  have hloop : counted (scoreFindings cm fs) cls =
      ((firsts (name cm) (named cm fs)).countP fun f => textClass (name cm f) = cls : Nat) := by
    have hcount : counted (scoreLoop cm ∅ { resources } fs) cls = _ :=
      (scoreLoop_firsts { resources } lookup_none).2 cls
    cases cls <;> exact hcount.trans (Int.zero_add _)
  have hmap : ((firsts (name cm) (named cm fs)).map (name cm)).countP (fun k => textClass k = cls) =
      (firsts (name cm) (named cm fs)).countP fun f => textClass (name cm f) = cls := by
    rw [List.countP_map, Function.comp_def]
  have hnodup : ((firsts (name cm) (named cm fs)).map (name cm)).Nodup := nodup_firstsFrom
  rw [hloop, ← hmap, List.countP_eq_length_filter, ← List.toFinset_card_of_nodup (hnodup.filter _),
    List.toFinset_filter, toFinset_firsts]
  simp only [decide_eq_true_eq]

theorem estateScore_scoreFindings : (scoreFindings cm fs).estateScore =
    max 0 (min 100 (100 - counted (scoreFindings cm fs) .shor * 12 -
      counted (scoreFindings cm fs) .grover * 4 + counted (scoreFindings cm fs) .pqc * 6)) := by
  change estateScore (scoreFindings cm fs) = _
  unfold estateScore counted
  dsimp only
  split_ifs <;> omega

/-- Two results with the same counts and the same score. -/
def Alike (res res' : PipelineResult) : Prop :=
  (∀ cls, counted res cls = counted res' cls) ∧ res.estateScore = res'.estateScore

theorem alike_of_names (h : names cm gs = names cm fs) :
    Alike (scoreFindings cm gs) (scoreFindings cm fs) := by
  have hcounted : ∀ cls, counted (scoreFindings cm gs) cls = counted (scoreFindings cm fs) cls := by
    intro cls
    rw [counted_scoreFindings, counted_scoreFindings, h]
  refine ⟨hcounted, ?_⟩
  rw [estateScore_scoreFindings, estateScore_scoreFindings, hcounted, hcounted, hcounted]

theorem names_mono (h : gs ⊆ fs) : names cm gs ⊆ names cm fs := by
  intro k hk
  obtain ⟨hne, f, hf, hname⟩ := mem_names.mp hk
  exact mem_names.mpr ⟨hne, f, h hf, hname⟩

theorem sum_counted : counted (scoreFindings cm fs) .shor + counted (scoreFindings cm fs) .grover +
    counted (scoreFindings cm fs) .pqc + counted (scoreFindings cm fs) .none =
      (names cm fs).card := by
  have hsum : (names cm fs).card = ∑ cls ∈ {.shor, .grover, .pqc, .none},
      ((names cm fs).filter fun k => textClass k = cls).card := by
    refine Finset.card_eq_sum_card_fiberwise fun k _ => ?_
    cases textClass k <;> simp
  simp only [counted_scoreFindings]
  rw [hsum]
  simp
  omega

theorem subset_insert : pre ++ post ⊆ pre ++ f :: post :=
  List.append_subset.mpr ⟨List.subset_append_left _ _, 
    List.subset_append_of_subset_right _ (List.subset_cons_self _ _)⟩

theorem counted_insert_le (cls : AttackClass) : counted (scoreFindings cm (pre ++ post)) cls ≤
    counted (scoreFindings cm (pre ++ f :: post)) cls := by
  rw [counted_scoreFindings, counted_scoreFindings]
  exact Int.ofNat_le.mpr (Finset.card_le_card
    (Finset.filter_subset_filter _ (names_mono subset_insert)))

/-- A finding adds to no class but its own. -/
theorem counted_insert_ne (h : textClass (name cm f) ≠ cls) :
    counted (scoreFindings cm (pre ++ f :: post)) cls =
      counted (scoreFindings cm (pre ++ post)) cls := by
  rw [counted_scoreFindings, counted_scoreFindings]
  congr 2
  ext k
  rw [Finset.mem_filter, Finset.mem_filter]
  refine and_congr_left fun hk => ⟨fun hmem => ?_, fun hmem => names_mono subset_insert hmem⟩
  obtain ⟨hne, g, hg, hname⟩ := mem_names.mp hmem
  refine mem_names.mpr ⟨hne, g, ?_, hname⟩
  rw [List.mem_append, List.mem_cons] at hg
  obtain hg | rfl | hg := hg
  · exact List.mem_append_left _ hg
  · exact absurd (hname ▸ hk) h
  · exact List.mem_append_right _ hg

end Names

/-- The counts and the score are those of the set of names, one count for each name; they grow
as the names do. -/
theorem estate_of_names (cm : CaseMap) (fs : List FindingInput) :
    (∀ gs, names cm gs = names cm fs → Alike (scoreFindings cm gs) (scoreFindings cm fs)) ∧
    (∀ gs, gs ⊆ fs → fs ⊆ gs → Alike (scoreFindings cm gs) (scoreFindings cm fs)) ∧
    (scoreFindings cm fs).shorVulnerable + (scoreFindings cm fs).groverAffected +
      (scoreFindings cm fs).pqcReady + (scoreFindings cm fs).unclassified = (names cm fs).card ∧
    (0 ≤ (scoreFindings cm fs).estateScore ∧ (scoreFindings cm fs).estateScore ≤ 100) ∧
    ∀ pre post f, fs = pre ++ post →
      ((classify cm f.algorithm f.keyLength).attackClass = .shor →
        (scoreFindings cm (pre ++ f :: post)).estateScore ≤ (scoreFindings cm fs).estateScore) ∧
      ((classify cm f.algorithm f.keyLength).attackClass = .pqc →
        (scoreFindings cm fs).estateScore ≤ (scoreFindings cm (pre ++ f :: post)).estateScore) := by
  refine ⟨fun gs => alike_of_names, fun gs hle hge => ?_, sum_counted, ?_, ?_⟩
  · exact alike_of_names ((names_mono hle).antisymm (names_mono hge))
  · rw [estateScore_scoreFindings]
    omega
  · rintro pre post f rfl
    have hshor : _ ≤ counted (scoreFindings cm (pre ++ f :: post)) .shor := counted_insert_le .shor
    have hpqc : _ ≤ counted (scoreFindings cm (pre ++ f :: post)) .pqc := counted_insert_le .pqc
    rw [attackClass_classify, estateScore_scoreFindings, estateScore_scoreFindings]
    constructor
    · intro h
      have hgrover : counted (scoreFindings cm (pre ++ f :: post)) .grover = _ :=
        counted_insert_ne (by rw [name, h]; decide)
      have hready : counted (scoreFindings cm (pre ++ f :: post)) .pqc = _ :=
        counted_insert_ne (by rw [name, h]; decide)
      omega
    · intro h
      have hgrover : counted (scoreFindings cm (pre ++ f :: post)) .grover = _ :=
        counted_insert_ne (by rw [name, h]; decide)
      have hvulnerable : counted (scoreFindings cm (pre ++ f :: post)) .shor = _ :=
        counted_insert_ne (by rw [name, h]; decide)
      omega

section Verdicts

variable {u : UnicodeCase}

/-- The finding is safe, by its class and key length or by its own flag. -/
def Safe (cm : CaseMap) (f : FindingInput) : Prop :=
  (classify cm f.algorithm f.keyLength).quantumSafe = true ∨ f.quantumSafe = true

instance (cm : CaseMap) (f : FindingInput) : Decidable (Safe cm f) :=
  inferInstanceAs (Decidable (_ ∨ _))

/-- The algorithms as they are reported: the upper-cased name, the class and the verdict. -/
def triples (cm : CaseMap) (fs : List FindingInput) : List (String × AttackClass × Bool) :=
  (scoreFindings cm fs).algorithms.map fun a =>
    (toUpper cm a.algorithm, a.attackClass, a.quantumSafe)

/-- The verdicts do not depend on the order of the findings, and none is better than a finding
of its name. -/
def Settled (cm : CaseMap) (fs : List FindingInput) : Prop :=
  (∀ gs, gs.Perm fs → ∀ t, t ∈ triples cm gs ↔ t ∈ triples cm fs) ∧
  ∀ a ∈ (scoreFindings cm fs).algorithms, a.quantumSafe = true →
    ∀ f ∈ fs, name cm f = normalized cm a.algorithm → Safe cm f

/-- Findings of one name are written alike but for case, and have one verdict. -/
def Consistent (cm : CaseMap) (fs : List FindingInput) : Prop :=
  ∀ f ∈ fs, ∀ g ∈ fs, name cm f ≠ "" → name cm f = name cm g →
    toUpper cm f.algorithm = toUpper cm g.algorithm ∧ (Safe cm f ↔ Safe cm g)

theorem algorithm_classify (s : String) (k : Int) : (classify cm s k).algorithm = s := by
  unfold classify
  dsimp only
  split_ifs <;> rfl

theorem algorithm_scoreFinding : (scoreFinding cm f).algorithm = f.algorithm := by
  simp only [scoreFinding, apply_ite AlgorithmScore.algorithm, algorithm_classify, ite_self]

theorem quantumSafe_of_pqc {s : String} {k : Int} (h : (classify cm s k).attackClass = .pqc) :
    (classify cm s k).quantumSafe = true := by
  have hc := classified cm s k
  rw [h] at hc
  generalize (classify cm s k).qiskitFamily = family, (classify cm s k).quantumSafe = safe at hc
  cases hc
  rfl

theorem quantumSafe_scoreFinding : (scoreFinding cm f).quantumSafe = true ↔ Safe cm f := by
  unfold scoreFinding Safe
  dsimp only
  split_ifs with h
  · simp only [Bool.and_eq_true] at h
    exact iff_of_true h.1 (.inr h.1)
  · refine ⟨.inl, fun hsafe => hsafe.elim id fun hflag => quantumSafe_of_pqc ?_⟩
    simpa [hflag] using h

/-- What is reported of a finding. -/
def triple (cm : CaseMap) (f : FindingInput) : String × AttackClass × Bool :=
  (toUpper cm f.algorithm, textClass (name cm f), decide (Safe cm f))

theorem mem_triples {t : String × AttackClass × Bool} : t ∈ triples cm fs ↔
    ∃ f, First (name cm) (named cm fs) f ∧ triple cm f = t := by
  have htriple : ∀ f, (toUpper cm (scoreFinding cm f).algorithm, (scoreFinding cm f).attackClass,
      (scoreFinding cm f).quantumSafe) = triple cm f := by
    intro f
    have hsafe : decide (Safe cm f) = (scoreFinding cm f).quantumSafe := by
      rw [Bool.eq_iff_iff, decide_eq_true_eq, quantumSafe_scoreFinding]
    rw [triple, algorithm_scoreFinding, attackClass_scoreFinding, hsafe]
  rw [triples, algorithms_scoreFindings, List.map_map, List.mem_map]
  refine exists_congr fun f => and_congr mem_firsts ?_
  rw [Function.comp_apply, htriple]

theorem first_of_cons (h : name cm f ≠ "") : First (name cm) (named cm (f :: fs)) f := by
  rw [named_cons h, first_cons]
  exact .inl ⟨rfl, rfl⟩

theorem triple_inj (h : triple cm f = triple cm g) :
    toUpper cm f.algorithm = toUpper cm g.algorithm ∧ (Safe cm f ↔ Safe cm g) := by
  simp only [triple, Prod.mk.injEq, decide_eq_decide] at h
  exact ⟨h.1, h.2.2⟩

theorem consistent_of_perm (hf : f ∈ fs) (hg : g ∈ fs) (hne : name u.toCaseMap f ≠ "")
    (hname : name u.toCaseMap f = name u.toCaseMap g)
    (h : ∀ gs, gs.Perm fs → ∀ t, t ∈ triples u.toCaseMap gs ↔ t ∈ triples u.toCaseMap fs) :
    toUpper u.toCaseMap f.algorithm = toUpper u.toCaseMap g.algorithm ∧
      (Safe u.toCaseMap f ↔ Safe u.toCaseMap g) := by
  obtain ⟨before, after, rfl⟩ := List.append_of_mem hf
  have hfirst : triple u.toCaseMap f ∈ triples u.toCaseMap (before ++ f :: after) :=
    (h _ List.perm_middle.symm _).mp (mem_triples.mpr ⟨f, first_of_cons hne, rfl⟩)
  obtain ⟨before', after', hsplit⟩ := List.append_of_mem hg
  have hperm : (g :: (before' ++ after')).Perm (before ++ f :: after) :=
    hsplit ▸ List.perm_middle.symm
  obtain ⟨e, he, hte⟩ := mem_triples.mp ((h _ hperm _).mpr hfirst)
  have heq : name u.toCaseMap e = name u.toCaseMap g :=
    (normalized_of_toUpper (triple_inj hte).1).trans hname
  obtain rfl : e = g := he.eq (first_of_cons (ne_of_eq_of_ne hname.symm hne)) heq
  exact triple_inj hte.symm

theorem mem_triples_of_consistent {t : String × AttackClass × Bool} (h : Consistent cm fs)
    (hgs : gs ⊆ fs) : t ∈ triples cm gs ↔ ∃ f ∈ gs, name cm f ≠ "" ∧ triple cm f = t := by
  rw [mem_triples]
  constructor
  · rintro ⟨f, hfirst, ht⟩
    obtain ⟨hf, hne⟩ := mem_named.mp hfirst.mem
    exact ⟨f, hf, hne, ht⟩
  · rintro ⟨f, hf, hne, rfl⟩
    obtain ⟨e, he, hname⟩ := exists_first (name cm) (mem_named.mpr ⟨hf, hne⟩)
    have hmem : e ∈ fs := hgs (mem_named.mp he.mem).1
    obtain ⟨hupper, hsafe⟩ := h e hmem f (hgs hf) (ne_of_eq_of_ne hname hne) hname
    refine ⟨e, he, ?_⟩
    rw [triple, hupper, hname, decide_eq_decide.mpr hsafe]
    rfl

/-- The verdicts are those of the names exactly if the findings of each name agree. -/
theorem verdicts_settled_iff (u : UnicodeCase) (fs : List FindingInput) :
    Settled u.toCaseMap fs ↔ Consistent u.toCaseMap fs := by
  constructor
  · exact fun h f hf g hg hne hname => consistent_of_perm hf hg hne hname h.1
  · intro h
    constructor
    · intro gs hperm t
      rw [mem_triples_of_consistent h hperm.subset,
        mem_triples_of_consistent h (List.Subset.refl fs)]
      exact exists_congr fun f => and_congr_left' hperm.mem_iff
    · intro a ha hsafe f hf hname
      rw [algorithms_scoreFindings] at ha
      obtain ⟨e, he, rfl⟩ := List.mem_map.mp ha
      obtain ⟨hmem, hne⟩ := mem_named.mp (mem_firsts.mp he).mem
      rw [algorithm_scoreFinding] at hname
      have hverdict := (h e hmem f hf hne hname.symm).2
      exact hverdict.mp (quantumSafe_scoreFinding.mp hsafe)

def aes128 : FindingInput := { algorithm := "AES", keyLength := 128 }

def aes256 : FindingInput := { algorithm := "AES", keyLength := 256 }

/-- Which of two keys comes first decides the verdict on their algorithm. -/
theorem verdict_of_first_key : ¬ Settled asciiTables.toCaseMap [aes128, aes256] := by
  intro h
  have hne : name asciiTables.toCaseMap aes128 ≠ "" := by decide
  have hsafe := (consistent_of_perm (f := aes128) (g := aes256) List.mem_cons_self
    (.tail _ (.head _)) hne rfl h.1).2
  have hlong : Safe asciiTables.toCaseMap aes256 := by decide
  have hshort : ¬ Safe asciiTables.toCaseMap aes128 := by decide
  exact hshort (hsafe.mpr hlong)

end Verdicts

end RivicQ.Properties.Estates
