import Mathlib.Data.List.Basic
import Mathlib.Data.List.Dedup

namespace RivicQ.Lib.Sortings

variable {V : Type} {order : V → String} {values values' out out' : List V}

/-- What sorting some values by a text of theirs can give, in whatever order they come and
whatever becomes of those with one text. -/
structure Sorting (order : V → String) (values out : List V) : Prop where
  perm : out.Perm values
  sorted : out.Pairwise fun a b => order a ≤ order b

theorem le_trans (order : V → String) (a b c : V) (hab : decide (order a ≤ order b) = true)
    (hbc : decide (order b ≤ order c) = true) : decide (order a ≤ order c) = true :=
  decide_eq_true (String.le_trans (of_decide_eq_true hab) (of_decide_eq_true hbc))

theorem le_total (order : V → String) (a b : V) :
    (decide (order a ≤ order b) || decide (order b ≤ order a)) = true := by
  rw [Bool.or_eq_true, decide_eq_true_iff, decide_eq_true_iff]
  exact String.le_total _ _

theorem sorting_mergeSort (order : V → String) (values : List V) :
    Sorting order values (values.mergeSort fun a b => order a ≤ order b) where
  perm := List.mergeSort_perm _ _
  sorted := (List.pairwise_mergeSort (le_trans order) (le_total order) values).imp
    of_decide_eq_true

theorem Sorting.of_perm (h : Sorting order values out) (hperm : values.Perm values') :
    Sorting order values' out :=
  ⟨h.perm.trans hperm, h.sorted⟩

/-- Values of different texts can be sorted in one way only. -/
theorem Sorting.unique (h : Sorting order values out) (h' : Sorting order values out')
    (horder : ∀ a ∈ values, ∀ b ∈ values, order a = order b → a = b) : out = out' := by
  refine List.Perm.eq_of_pairwise (fun a b ha hb hab hba => ?_) h.sorted h'.sorted
    (h.perm.trans h'.perm.symm)
  exact horder a (h.perm.subset ha) b (h'.perm.subset hb) (String.le_antisymm hab hba)

/-- Those of one text keep their order when they are sorted. -/
theorem filter_mergeSort (k : String) : (values.mergeSort fun a b => order a ≤ order b).filter
    (fun v => order v = k) = values.filter fun v => order v = k := by
  have hsorted : (values.filter fun v => order v = k).Pairwise
      fun a b => decide (order a ≤ order b) = true := by
    refine List.pairwise_of_forall_mem_list fun a ha b hb => decide_eq_true ?_
    have hak := of_decide_eq_true (List.mem_filter.mp ha).2
    have hbk := of_decide_eq_true (List.mem_filter.mp hb).2
    exact (hak.trans hbk.symm) ▸ String.le_refl _
  have hsub := (List.sublist_mergeSort (le_trans order) (le_total order) hsorted
    List.filter_sublist).filter fun v => decide (order v = k)
  rw [List.filter_filter] at hsub
  simp only [Bool.and_self] at hsub
  exact (hsub.eq_of_length ((List.mergeSort_perm _ _).filter _).length_eq.symm).symm

/-- Values can be sorted in one way only if no two of them have one text. -/
theorem unique_iff : (∀ out out', Sorting order values out → Sorting order values out' →
      out = out') ↔ ∀ a ∈ values, ∀ b ∈ values, order a = order b → a = b := by
  constructor
  · intro h a ha b hb hab
    by_contra hne
    obtain ⟨s, t, rfl⟩ := List.append_of_mem ha
    have hfront : (s ++ a :: t).Perm (a :: (s ++ t)) := List.perm_middle
    obtain hab' | hb := List.mem_cons.mp (hfront.subset hb)
    · exact hne hab'.symm
    obtain ⟨s', t', hrest⟩ := List.append_of_mem hb
    have hperm : (s ++ a :: t).Perm (a :: b :: (s' ++ t')) := by
      rw [hrest] at hfront
      exact hfront.trans (List.perm_middle.cons a)
    -- Sorting keeps the order of the two, so that it matters which one comes first.
    have hsame := h _ _ ((sorting_mergeSort order _).of_perm hperm.symm)
      ((sorting_mergeSort order _).of_perm ((List.Perm.swap a b _).trans hperm.symm))
    have hfilter := congrArg (List.filter fun v => decide (order v = order a)) hsame
    simp only [filter_mergeSort, List.filter_cons, hab, decide_true, if_true] at hfilter
    exact hne (List.cons.inj hfilter).1
  · exact fun horder out out' h h' => h.unique h' horder

end RivicQ.Lib.Sortings

namespace RivicQ.Lib.Differences

variable {K V : Type} [DecidableEq K] {es xs ys : List (K × V)}

/-- The entries of a map that is filled in order: the last one for each key. -/
def lasts (es : List (K × V)) : List (K × V) :=
  es.foldr (fun e es => if es.any (·.1 = e.1) then es else e :: es) []

/-- The entries whose keys are there too. -/
def common (xs ys : List (K × V)) : List (K × V) := xs.filter fun e => ys.any (·.1 = e.1)

theorem any_key_iff {k : K} : es.any (·.1 = k) = true ↔ k ∈ es.map Prod.fst := by
  simp only [List.any_eq_true, decide_eq_true_eq, List.mem_map]

theorem map_fst_lasts (es : List (K × V)) :
    (lasts es).map Prod.fst = (es.map Prod.fst).dedup := by
  induction es with
  | nil => rfl
  | cons e es ih =>
    change (if (lasts es).any (·.1 = e.1) then lasts es else e :: lasts es).map Prod.fst = _
    rw [List.map_cons]
    by_cases h : e.1 ∈ es.map Prod.fst
    · have hany : (lasts es).any (·.1 = e.1) = true :=
        any_key_iff.mpr (ih ▸ List.mem_dedup.mpr h)
      rw [if_pos hany, ih, List.dedup_cons_of_mem h]
    · have hany : ¬ (lasts es).any (·.1 = e.1) = true := fun hany =>
        h (List.mem_dedup.mp (ih ▸ any_key_iff.mp hany))
      rw [if_neg hany, List.map_cons, ih, List.dedup_cons_of_notMem h]

theorem nodup_lasts (es : List (K × V)) : ((lasts es).map Prod.fst).Nodup :=
  map_fst_lasts es ▸ List.nodup_dedup _

/-- No entry is lost if the keys are distinct, and only then. -/
theorem length_lasts_iff : (lasts es).length = es.length ↔ (es.map Prod.fst).Nodup := by
  have hlasts : (lasts es).length = (es.map Prod.fst).dedup.length := by
    rw [← map_fst_lasts, List.length_map]
  have hes : es.length = (es.map Prod.fst).length := (List.length_map _).symm
  rw [hlasts, hes, ← List.dedup_eq_self]
  exact ⟨(List.dedup_sublist _).eq_of_length, congrArg List.length⟩

theorem map_fst_common (xs ys : List (K × V)) :
    (common xs ys).map Prod.fst = (xs.map Prod.fst).filter (· ∈ ys.map Prod.fst) := by
  rw [common, List.filter_map]
  congr 1
  apply List.filter_congr
  intro e _
  rw [Bool.eq_iff_iff, any_key_iff, Function.comp_apply, decide_eq_true_eq]

theorem length_common_comm (hx : (xs.map Prod.fst).Nodup) (hy : (ys.map Prod.fst).Nodup) :
    (common xs ys).length = (common ys xs).length := by
  have hperm : ((common xs ys).map Prod.fst).Perm ((common ys xs).map Prod.fst) := by
    rw [map_fst_common, map_fst_common, List.perm_ext_iff_of_nodup (hx.filter _) (hy.filter _)]
    intro k
    simp only [List.mem_filter, decide_eq_true_eq]
    exact and_comm
  simpa only [List.length_map] using hperm.length_eq

theorem length_new_add (xs ys : List (K × V)) :
    (xs.filter fun e => !ys.any (·.1 = e.1)).length + (common xs ys).length = xs.length := by
  rw [common, Nat.add_comm]
  exact (List.length_eq_length_filter_add _).symm

theorem filter_new_self (xs : List (K × V)) :
    (xs.filter fun e => !xs.any (·.1 = e.1)) = [] := by
  apply List.filter_eq_nil_iff.mpr
  intro e he
  have hany : xs.any (·.1 = e.1) = true := any_key_iff.mpr (List.mem_map_of_mem he)
  rw [hany]
  exact Bool.false_ne_true

end RivicQ.Lib.Differences

namespace RivicQ.Lib.Firsts

variable {K V : Type} [DecidableEq K] (key : V → K)

/-- The items whose keys have not been seen, each key once. -/
def firstsFrom (seen : List K) : List V → List V
  | [] => []
  | v :: vs =>
    if key v ∈ seen then firstsFrom seen vs else v :: firstsFrom (key v :: seen) vs

/-- The first item of each key. -/
def firsts (items : List V) : List V := firstsFrom key [] items

/-- No earlier item has the item's key. -/
def First (items : List V) (v : V) : Prop := items.find? (fun w => key w = key v) = some v

instance (items : List V) (v : V) [DecidableEq V] : Decidable (First key items v) :=
  inferInstanceAs (Decidable (_ = _))

variable {key} {items : List V} {seen : List K} {v w : V}

theorem first_cons : First key (w :: items) v ↔
    (key w = key v ∧ w = v) ∨ (key w ≠ key v ∧ First key items v) := by
  unfold First
  rw [List.find?_cons]
  by_cases h : key w = key v
  · simp only [h, decide_true, Option.some.injEq, true_and, ne_eq, not_true, false_and, or_false]
  · simp only [h, decide_false, false_and, ne_eq, not_false_iff, true_and, false_or]

theorem First.mem (h : First key items v) : v ∈ items := List.mem_of_find?_eq_some h

theorem First.eq (hv : First key items v) (hw : First key items w) (h : key v = key w) :
    v = w := by
  unfold First at hv hw
  rw [h, hw] at hv
  exact (Option.some.inj hv).symm

theorem exists_first (key : V → K) (h : v ∈ items) :
    ∃ w, First key items w ∧ key w = key v := by
  cases hw : items.find? fun w => key w = key v with
  | none =>
    have hne := List.find?_eq_none.mp hw v h
    exact absurd (decide_eq_true rfl) hne
  | some w =>
    have hkey : key w = key v := by simpa using List.find?_some hw
    exact ⟨w, by rw [First, hkey, hw], hkey⟩

theorem mem_firstsFrom : v ∈ firstsFrom key seen items ↔ key v ∉ seen ∧ First key items v := by
  induction items generalizing seen with
  | nil =>
    simp only [firstsFrom, First, List.find?_nil, List.not_mem_nil, reduceCtorEq, and_false]
  | cons w items ih =>
    rw [first_cons, firstsFrom]
    by_cases hw : key w ∈ seen
    · rw [if_pos hw, ih]
      refine and_congr_right fun hv => ?_
      have hne : key w ≠ key v := fun h => hv (h ▸ hw)
      simp only [hne, false_and, ne_eq, not_false_iff, true_and, false_or]
    · rw [if_neg hw, List.mem_cons, ih, List.mem_cons, not_or]
      constructor
      · rintro (rfl | ⟨⟨hne, hv⟩, hfirst⟩)
        · exact ⟨hw, .inl ⟨rfl, rfl⟩⟩
        · exact ⟨hv, .inr ⟨Ne.symm hne, hfirst⟩⟩
      · rintro ⟨hv, ⟨-, rfl⟩ | ⟨hne, hfirst⟩⟩
        · exact .inl rfl
        · exact .inr ⟨⟨Ne.symm hne, hv⟩, hfirst⟩

theorem mem_firsts : v ∈ firsts key items ↔ First key items v := by
  rw [firsts, mem_firstsFrom]
  exact and_iff_right List.not_mem_nil

/-- A first item stands behind items with other keys. -/
theorem exists_first_split (key : V → K) (h : v ∈ items) : ∃ before w after,
    items = before ++ w :: after ∧ key w = key v ∧ ∀ u ∈ before, key u ≠ key v := by
  induction items with
  | nil => exact absurd h List.not_mem_nil
  | cons w items ih =>
    by_cases hw : key w = key v
    · exact ⟨[], w, items, rfl, hw, List.forall_mem_nil _⟩
    · have hmem : v ∈ items := (List.mem_cons.mp h).resolve_left fun hv => hw (hv ▸ rfl)
      obtain ⟨before, x, after, rfl, hx, hbefore⟩ := ih hmem
      exact ⟨w :: before, x, after, rfl, hx, List.forall_mem_cons.mpr ⟨hw, hbefore⟩⟩

/-- The first item of a key is kept behind those kept before it, and no later one has its key. -/
theorem firstsFrom_split {before after : List V} (hv : key v ∉ seen)
    (hbefore : ∀ w ∈ before, key w ≠ key v) :
    ∃ rest, firstsFrom key seen (before ++ v :: after) = firstsFrom key seen before ++ v :: rest ∧
      ∀ w ∈ rest, key w ≠ key v := by
  induction before generalizing seen with
  | nil =>
    refine ⟨firstsFrom key (key v :: seen) after, if_neg hv, fun w hw heq => ?_⟩
    exact (mem_firstsFrom.mp hw).1 (heq ▸ List.mem_cons_self)
  | cons w before ih =>
    obtain ⟨hw, hbefore⟩ := List.forall_mem_cons.mp hbefore
    rw [List.cons_append, firstsFrom, firstsFrom]
    split_ifs with hseen
    · exact ih hv hbefore
    · obtain ⟨rest, hrest, hne⟩ := ih (List.not_mem_cons_of_ne_of_not_mem hw.symm hv) hbefore
      exact ⟨rest, congrArg (w :: ·) hrest, hne⟩

/-- One more key that has been seen leaves its item out. -/
theorem firstsFrom_insert {k : K} {seen' : List K} (h : ∀ x, x ∈ seen' ↔ x = k ∨ x ∈ seen) :
    firstsFrom key seen' items = (firstsFrom key seen items).filter fun v => key v ≠ k := by
  induction items generalizing seen seen' with
  | nil => rfl
  | cons v items ih =>
    rw [firstsFrom, firstsFrom]
    by_cases hv : key v ∈ seen
    · rw [if_pos hv, if_pos ((h _).mpr (.inr hv)), ih h]
    rw [if_neg hv]
    have hseen : ∀ x, x ∈ key v :: seen' ↔ x = k ∨ x ∈ key v :: seen := by
      intro x
      rw [List.mem_cons, List.mem_cons, h, or_left_comm]
    by_cases hk : key v = k
    · have hmem : ∀ x, x ∈ seen' ↔ x = k ∨ x ∈ key v :: seen := by
        intro x
        rw [h, List.mem_cons, hk, ← or_assoc, or_self]
      rw [if_pos ((h _).mpr (.inl hk)), List.filter_cons_of_neg (by simpa using hk), ih hmem]
    · rw [if_neg fun hmem => ((h _).mp hmem).elim hk hv, List.filter_cons, ih hseen]
      exact (if_pos (decide_eq_true hk)).symm

/-- Looking a key up does not see that there are no other items with it. -/
theorem find?_firstsFrom {k : K} (hk : k ∉ seen) :
    (firstsFrom key seen items).find? (fun w => key w = k) =
      items.find? fun w => key w = k := by
  induction items generalizing seen with
  | nil => rfl
  | cons v items ih =>
    rw [firstsFrom, List.find?_cons]
    split_ifs with hseen
    · have hne : key v ≠ k := fun h => hk (h ▸ hseen)
      rw [ih hk, decide_eq_false hne]
    · rw [List.find?_cons]
      by_cases hv : key v = k
      · rw [decide_eq_true hv]
      · rw [decide_eq_false hv]
        refine ih fun hmem => ?_
        obtain h | h := List.mem_cons.mp hmem
        · exact hv h.symm
        · exact hk h

theorem find?_firsts (k : K) :
    (firsts key items).find? (fun w => key w = k) = items.find? fun w => key w = k :=
  find?_firstsFrom List.not_mem_nil

theorem mem_map_firsts {k : K} : k ∈ (firsts key items).map key ↔ k ∈ items.map key := by
  rw [List.mem_map, List.mem_map]
  constructor
  · rintro ⟨v, hv, rfl⟩
    exact ⟨v, (mem_firsts.mp hv).mem, rfl⟩
  · rintro ⟨v, hv, rfl⟩
    obtain ⟨w, hw, hkey⟩ := exists_first key hv
    exact ⟨w, mem_firsts.mpr hw, hkey⟩

theorem nodup_firstsFrom : ((firstsFrom key seen items).map key).Nodup := by
  induction items generalizing seen with
  | nil => exact List.nodup_nil
  | cons v items ih =>
    rw [firstsFrom]
    split_ifs with hseen
    · exact ih
    · rw [List.map_cons, List.nodup_cons]
      refine ⟨fun hmem => ?_, ih⟩
      obtain ⟨w, hw, hkey⟩ := List.mem_map.mp hmem
      exact (mem_firstsFrom.mp hw).1 (hkey ▸ List.mem_cons_self)

/-- A last item whose key is known is passed over. -/
theorem firstsFrom_concat_old (h : key v ∈ seen ∨ key v ∈ items.map key) :
    firstsFrom key seen (items ++ [v]) = firstsFrom key seen items := by
  induction items generalizing seen with
  | nil => exact if_pos (h.resolve_right List.not_mem_nil)
  | cons w items ih =>
    rw [List.map_cons, List.mem_cons] at h
    rw [List.cons_append, firstsFrom, firstsFrom]
    split_ifs with hw
    · exact ih (h.elim .inl fun h => h.elim (fun h => .inl (h ▸ hw)) .inr)
    · refine congrArg (w :: ·) (ih ?_)
      rw [List.mem_cons, or_assoc, or_left_comm]
      exact h

theorem firstsFrom_concat_new (h : key v ∉ seen) (hnew : key v ∉ items.map key) :
    firstsFrom key seen (items ++ [v]) = firstsFrom key seen items ++ [v] := by
  induction items generalizing seen with
  | nil => exact if_neg h
  | cons w items ih =>
    rw [List.map_cons, List.mem_cons, not_or] at hnew
    rw [List.cons_append, firstsFrom, firstsFrom]
    split_ifs with hw
    · exact ih h hnew.2
    · exact congrArg (w :: ·) (ih (List.not_mem_cons_of_ne_of_not_mem hnew.1 h) hnew.2)

/-- Which keys there are does not depend on the order of the items. -/
theorem keys_firsts_perm {items' : List V} (h : items.Perm items') :
    ((firsts key items).map key).Perm ((firsts key items').map key) := by
  refine (List.perm_ext_iff_of_nodup nodup_firstsFrom nodup_firstsFrom).mpr fun k => ?_
  exact mem_map_firsts.trans ((h.map key).mem_iff.trans mem_map_firsts.symm)

/-- What the key decides is counted alike where the keys are the same. -/
theorem countP_of_keys {p : V → Bool} {all items' : List V}
    (hp : ∀ v ∈ all, ∀ w ∈ all, key v = key w → p v = p w) (hitems : items ⊆ all)
    (hitems' : items' ⊆ all) (h : (items.map key).Perm (items'.map key)) :
    items.countP p = items'.countP p := by
  classical
  have hcount : ∀ vs : List V, vs ⊆ all → vs.countP p =
      (vs.map key).countP fun k => decide (∃ w ∈ all, key w = k ∧ p w = true) := by
    intro vs hvs
    rw [List.countP_map]
    refine List.countP_congr fun v hv => ?_
    rw [Function.comp_apply, decide_eq_true_eq]
    refine ⟨fun hpv => ⟨v, hvs hv, rfl, hpv⟩, ?_⟩
    rintro ⟨w, hw, hkey, hpw⟩
    rwa [← hp w hw v (hvs hv) hkey]
  rw [hcount items hitems, hcount items' hitems', h.countP_eq]

end RivicQ.Lib.Firsts
