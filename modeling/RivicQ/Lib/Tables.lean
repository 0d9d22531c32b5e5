import Mathlib.Data.List.AList

namespace RivicQ.Lib.Tables

/-- A Go map with string keys. -/
abbrev Table (V : Type) := AList (fun _ : String => V)

variable {V K R : Type}

def Table.values (t : Table V) : List V := t.entries.map Sigma.snd

theorem lookup_insert_if (t : Table V) (a b : String) (v : V) :
    (AList.insert b v t).lookup a = if a = b then some v else t.lookup a := by
  by_cases h : a = b
  · subst h
    rw [AList.lookup_insert, if_pos rfl]
  · rw [AList.lookup_insert_ne h, if_neg h]

theorem lookup_erase_if (t : Table V) (a b : String) :
    (AList.erase b t).lookup a = if a = b then none else t.lookup a := by
  by_cases h : a = b
  · subst h
    rw [AList.lookup_erase, if_pos rfl]
  · rw [AList.lookup_erase_ne h, if_neg h]

theorem lookup_foldl_erase (t : Table V) (ks : List String) (a : String) :
    (ks.foldl (fun t k => AList.erase k t) t).lookup a = if a ∈ ks then none else t.lookup a := by
  induction ks generalizing t with
  | nil => rfl
  | cons k ks ih =>
    rw [List.foldl_cons, ih, lookup_erase_if]
    by_cases hk : a = k
    · rw [if_pos hk, ite_self, if_pos (hk ▸ List.mem_cons_self)]
    · rw [if_neg hk]
      simp only [List.mem_cons, hk, false_or]

theorem mem_of_lookup {α β : Type} [BEq α] [LawfulBEq α] {l : List (α × β)} {a : α} {b : β}
    (h : l.lookup a = some b) : (a, b) ∈ l := by
  obtain ⟨l₁, l₂, rfl, _⟩ := List.lookup_eq_some_iff.mp h
  exact List.mem_append_right l₁ List.mem_cons_self

theorem mem_values (t : Table V) (v : V) : v ∈ t.values ↔ ∃ k, t.lookup k = some v := by
  simp only [Table.values, List.mem_map]
  constructor
  · rintro ⟨⟨k, w⟩, hm, rfl⟩
    exact ⟨k, AList.mem_lookup_iff.mpr hm⟩
  · rintro ⟨k, hk⟩
    exact ⟨⟨k, v⟩, AList.mem_lookup_iff.mp hk, rfl⟩

/-- The entries of a table that are to be kept. -/
def retain (p : V → Bool) (t : Table V) : Table V :=
  ⟨t.entries.filter fun e => p e.2, t.nodupKeys.sublist List.filter_sublist⟩

theorem lookup_retain (p : V → Bool) (t : Table V) (k : String) :
    (retain p t).lookup k = (t.lookup k).filter p := by
  ext v
  rw [← Option.mem_def, ← Option.mem_def, AList.mem_lookup_iff, Option.mem_def,
    Option.filter_eq_some_iff, ← Option.mem_def, AList.mem_lookup_iff]
  exact List.mem_filter

theorem retain_all {p : V → Bool} {t : Table V} (h : ∀ k v, t.lookup k = some v → p v = true) :
    retain p t = t := by
  refine AList.ext (List.filter_eq_self.mpr ?_)
  rintro ⟨k, v⟩ hm
  exact h k v (AList.mem_lookup_iff.mpr hm)

/-- Which values of a kind a table holds is determined by its lookups. -/
theorem values_filter_perm {p : V → Bool} {t t' : Table V}
    (h : ∀ k, (t.lookup k).filter p = (t'.lookup k).filter p) :
    List.Perm (t.values.filter p) (t'.values.filter p) := by
  have hmem : ∀ (u : Table V) k v, ⟨k, v⟩ ∈ u.entries.filter (fun e => p e.2) ↔
      (u.lookup k).filter p = some v := by
    intro u k v
    rw [List.mem_filter, Option.filter_eq_some_iff, ← AList.mem_lookup_iff, Option.mem_def]
  have hnodup : ∀ u : Table V, (u.entries.filter fun e => p e.2).Nodup := fun u =>
    u.nodupKeys.nodup.filter _
  have hperm : List.Perm (t.entries.filter fun e => p e.2) (t'.entries.filter fun e => p e.2) := by
    refine (List.perm_ext_iff_of_nodup (hnodup t) (hnodup t')).mpr fun e => ?_
    rw [hmem t, hmem t', h]
  simpa only [Table.values, List.filter_map, Function.comp_def] using hperm.map Sigma.snd

/-- Visit the objects a list of references points to, one after the other. -/
def visit (f : V → V) (refs : List Nat) (objects : List V) : List V :=
  refs.foldl (fun os r => os.modify r f) objects

theorem getElem?_visit (f : V → V) (hf : ∀ v, f (f v) = f v) (refs : List Nat)
    (objects : List V) (r : Nat) :
    (visit f refs objects)[r]? = (objects[r]?).map (if r ∈ refs then f else id) := by
  induction refs generalizing objects with
  | nil => simp [visit]
  | cons q refs ih =>
    change (visit f refs (objects.modify q f))[r]? = _
    rw [ih, List.getElem?_modify]
    by_cases hq : q = r
    · subst hq
      cases objects[q]? with
      | none => rfl
      | some v => by_cases hm : q ∈ refs <;> simp [hm, hf]
    · have hr : r ≠ q := Ne.symm hq
      cases objects[r]? with
      | none => rfl
      | some v => by_cases hm : r ∈ refs <;> simp [hm, hq, hr]

/-- The row a query on a unique column returns. -/
def rowWith [DecidableEq K] (key : R → K) (k : K) (rows : List R) : Option R :=
  rows.find? (fun r => key r = k)

def updateWhere (p : R → Bool) (f : R → R) (rows : List R) : List R :=
  rows.map (fun r => if p r then f r else r)

variable {key : R → K}

/-- A write that does not decide whether a row is looked at can be made before or after. -/
theorem filter_updateWhere {p q : R → Bool} {f : R → R} (hq : ∀ r, q (f r) = q r) (rows : List R) :
    (updateWhere p f rows).filter q = updateWhere p f (rows.filter q) := by
  have hcond : q ∘ (fun r => if p r then f r else r) = q := by
    funext r
    simp only [Function.comp_apply]
    split
    · exact hq r
    · rfl
  rw [updateWhere, updateWhere, List.filter_map, hcond]

theorem updateWhere_eq_self {p : R → Bool} {f : R → R} {rows : List R} :
    updateWhere p f rows = rows ↔ ∀ r ∈ rows, p r = true → f r = r := by
  induction rows with
  | nil => simp [updateWhere]
  | cons r rows ih =>
    change (if p r then f r else r) :: updateWhere p f rows = r :: rows ↔ _
    rw [List.cons.injEq, ih, List.forall_mem_cons]
    refine and_congr_left fun _ => ?_
    split
    · rename_i hp
      exact ⟨fun h _ => h, fun h => h hp⟩
    · rename_i hp
      exact ⟨fun _ h => absurd h hp, fun _ => rfl⟩

/-- An update keeps the rows of a kind exactly if it makes nothing new of those it reaches. -/
theorem filter_updateWhere_eq_self {p q : R → Bool} {f : R → R} (hq : ∀ r, q (f r) = q r)
    {rows : List R} :
    (updateWhere p f rows).filter q = rows.filter q ↔
      ∀ r ∈ rows, p r = true → q r = true → f r = r := by
  rw [filter_updateWhere hq, updateWhere_eq_self]
  simp only [List.mem_filter, and_imp]
  exact forall₂_congr fun r _ => ⟨fun h hp hq => h hq hp, fun h hq hp => h hp hq⟩

/-- A deletion keeps the rows of a kind exactly if it reaches none of them. -/
theorem filter_filter_eq_self {p q : R → Bool} {rows : List R} :
    (rows.filter p).filter q = rows.filter q ↔ ∀ r ∈ rows, q r = true → p r = true := by
  rw [List.filter_comm, List.filter_eq_self]
  simp only [List.mem_filter, and_imp]

/-- An insertion keeps the rows of a kind exactly if the new row is of another. -/
theorem filter_append_eq_self {q : R → Bool} {rows : List R} {r : R} :
    (rows ++ [r]).filter q = rows.filter q ↔ q r = false := by
  cases h : q r <;> simp [List.filter_append, h]

theorem key_cond {p : R → Bool} {f : R → R} (hf : ∀ r, key (f r) = key r) (r : R) :
    key (if p r then f r else r) = key r := by
  split
  · exact hf r
  · rfl

theorem nodup_updateWhere {p : R → Bool} {f : R → R} (hf : ∀ r, key (f r) = key r) {rows : List R}
    (hn : (rows.map key).Nodup) : ((updateWhere p f rows).map key).Nodup := by
  simpa only [updateWhere, List.map_map, Function.comp_def, key_cond hf] using hn

theorem nodup_append {rows : List R} (hn : (rows.map key).Nodup) {r : R}
    (hr : ∀ q ∈ rows, key q ≠ key r) : ((rows ++ [r]).map key).Nodup := by
  rw [List.map_append, List.nodup_append]
  refine ⟨hn, by simp, ?_⟩
  intro a ha b hb
  obtain ⟨q, hq, rfl⟩ := List.mem_map.mp ha
  simp only [List.map_cons, List.map_nil, List.mem_singleton] at hb
  exact hb ▸ hr q hq

variable [DecidableEq K]

theorem rowWith_some {k : K} {rows : List R} {r : R} (h : rowWith key k rows = some r) :
    r ∈ rows ∧ key r = k :=
  ⟨List.mem_of_find?_eq_some h, by simpa using List.find?_some h⟩

theorem rowWith_none {k : K} {rows : List R} :
    rowWith key k rows = none ↔ ∀ r ∈ rows, key r ≠ k := by
  simp [rowWith]

theorem rowWith_append (k : K) (rows : List R) (r : R) :
    rowWith key k (rows ++ [r]) =
      (rowWith key k rows).or (if key r = k then some r else none) := by
  simp only [rowWith, List.find?_append, List.find?_singleton, decide_eq_true_eq]

theorem rowWith_updateWhere (p : R → Bool) (f : R → R) (hf : ∀ r, key (f r) = key r) (k : K)
    (rows : List R) :
    rowWith key k (updateWhere p f rows) =
      (rowWith key k rows).map (fun r => if p r then f r else r) := by
  simp only [rowWith, updateWhere, List.find?_map, Function.comp_def, key_cond hf]

theorem rowWith_mem {rows : List R} (hn : (rows.map key).Nodup) {r : R} (hr : r ∈ rows) :
    rowWith key (key r) rows = some r := by
  cases h : rowWith key (key r) rows with
  | none => exact absurd rfl (rowWith_none.mp h r hr)
  | some r' =>
    obtain ⟨hm, hk⟩ := rowWith_some h
    exact congrArg some (List.inj_on_of_nodup_map hn hm hr hk)

theorem forall_rowWith {rows : List R} (hn : (rows.map key).Nodup) {k : K} {P : R → Prop} :
    (∀ r ∈ rowWith key k rows, P r) ↔ ∀ r ∈ rows, key r = k → P r := by
  constructor
  · rintro h r hr rfl
    exact h r (rowWith_mem hn hr)
  · intro h r hrow
    obtain ⟨hr, hkey⟩ := rowWith_some hrow
    exact h r hr hkey

/-- Where keys are unique, the row of a query is among some of the rows or it is not. -/
theorem rowWith_filter {rows : List R} (hn : (rows.map key).Nodup) (p : R → Bool) (k : K) :
    rowWith key k (rows.filter p) = (rowWith key k rows).filter p := by
  cases h : rowWith key k rows with
  | none =>
    rw [Option.filter_none, rowWith_none]
    exact fun r hr => rowWith_none.mp h r (List.mem_filter.mp hr).1
  | some r =>
    obtain ⟨hr, rfl⟩ := rowWith_some h
    have hn' : ((rows.filter p).map key).Nodup := hn.sublist (List.filter_sublist.map key)
    by_cases hp : p r = true
    · rw [Option.filter_some, if_pos hp]
      exact rowWith_mem hn' (List.mem_filter.mpr ⟨hr, hp⟩)
    · rw [Option.filter_some, if_neg hp, rowWith_none]
      intro q hq hkey
      obtain ⟨hq, hpq⟩ := List.mem_filter.mp hq
      rw [List.inj_on_of_nodup_map hn hq hr hkey] at hpq
      exact hp hpq

end RivicQ.Lib.Tables
