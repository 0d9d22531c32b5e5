import Mathlib.Data.List.Infix

namespace RivicQ.Lib.Occurrences

variable {α : Type} [DecidableEq α] {m s : List α} {i : Nat}

/-- `strings.Index`: the position of the first occurrence of a text. -/
def index (m : List α) : List α → Option Nat
  | [] => if m = [] then some 0 else none
  | c :: s => if m <+: c :: s then some 0 else (index m s).map (· + 1)

theorem index_eq_none (h : index m s = none) (i : Nat) : ¬ m <+: s.drop i := by
  induction s generalizing i with
  | nil =>
    rw [index] at h
    split_ifs at h with hm
    rw [List.drop_nil, List.prefix_nil]
    exact hm
  | cons c s ih =>
    rw [index] at h
    split_ifs at h with hm
    cases i with
    | zero => exact hm
    | succ i => exact ih (Option.map_eq_none_iff.mp h) i

theorem index_eq_some (h : index m s = some i) :
    m <+: s.drop i ∧ i ≤ s.length ∧ ∀ j < i, ¬ m <+: s.drop j := by
  induction s generalizing i with
  | nil =>
    rw [index] at h
    split_ifs at h with hm
    obtain rfl := Option.some.inj h
    subst hm
    exact ⟨List.nil_prefix, Nat.le_refl 0, nofun⟩
  | cons c s ih =>
    rw [index] at h
    split_ifs at h with hm
    · obtain rfl := Option.some.inj h
      exact ⟨hm, Nat.zero_le _, nofun⟩
    · obtain ⟨j, hj, rfl⟩ := Option.map_eq_some_iff.mp h
      obtain ⟨hbegins, hle, hfirst⟩ := ih hj
      refine ⟨hbegins, Nat.succ_le_succ hle, fun k hk => ?_⟩
      cases k with
      | zero => exact hm
      | succ k => exact hfirst k (Nat.lt_of_succ_lt_succ hk)

section Joins

omit [DecidableEq α]

/-- A text occurs in another one, behind an element that may come before it if there is one. -/
def Occurs (before : Option α → Prop) (m s : List α) : Prop :=
  ∃ a b, s = a ++ (m ++ b) ∧ before a.getLast?

variable {before : Option α → Prop} {sep : α} {l rest : List α} {ls : List (List α)}

theorem occurs_iff_infix : Occurs (fun _ => True) m s ↔ m <:+: s := by
  constructor
  · rintro ⟨a, b, rfl, -⟩
    exact ⟨a, b, List.append_assoc a m b⟩
  · rintro ⟨a, b, rfl⟩
    exact ⟨a, b, List.append_assoc a m b, trivial⟩

theorem not_occurs_nil (hne : m ≠ []) : ¬ Occurs before m [] := by
  rintro ⟨a, b, h, -⟩
  have hm := (List.append_eq_nil_iff.mp (List.append_eq_nil_iff.mp h.symm).2).1
  exact hne hm

theorem before_behind (hbefore : before none ↔ before (some sep)) (a : List α) :
    before (l ++ sep :: a).getLast? ↔ before a.getLast? := by
  rw [List.getLast?_append, List.getLast?_cons, Option.some_or]
  cases a.getLast? with
  | none => exact hbefore.symm
  | some e => exact Iff.rfl

/-- A text does not reach over a separator that it does not have. -/
theorem occurs_separated (hne : m ≠ []) (hsep : sep ∉ m) (hbefore : before none ↔ before (some sep)) :
    Occurs before m (l ++ sep :: rest) ↔ Occurs before m l ∨ Occurs before m rest := by
  constructor
  · rintro ⟨a, b, h, hlast⟩
    obtain ⟨t, rfl, ht⟩ | ⟨t, rfl, ht⟩ := List.append_eq_append_iff.mp h
    · right
      cases t with
      | nil =>
        obtain ⟨c, m, rfl⟩ := List.exists_cons_of_ne_nil hne
        exact absurd (List.cons.inj ht).1 fun hc => hsep (hc ▸ List.mem_cons_self)
      | cons d t =>
        obtain ⟨rfl, rfl⟩ := List.cons.inj ht
        exact ⟨t, b, rfl, (before_behind hbefore t).mp hlast⟩
    · left
      obtain ⟨u, rfl, -⟩ | ⟨u, hm, hu⟩ := List.append_eq_append_iff.mp ht
      · exact ⟨a, u, rfl, hlast⟩
      · cases u with
        | nil => exact ⟨a, [], by simp [hm], hlast⟩
        | cons d u =>
          obtain ⟨rfl, -⟩ := List.cons.inj hu
          exact absurd (hm ▸ List.mem_append_right t List.mem_cons_self) hsep
  · rintro (⟨a, b, rfl, hlast⟩ | ⟨a, b, rfl, hlast⟩)
    · exact ⟨a, b ++ sep :: rest, by simp, hlast⟩
    · exact ⟨l ++ sep :: a, b, by simp, (before_behind hbefore a).mpr hlast⟩

/-- A text without the separator occurs in joined texts exactly if it occurs in one of them. -/
theorem occurs_intercalate (hne : m ≠ []) (hsep : sep ∉ m)
    (hbefore : before none ↔ before (some sep)) :
    Occurs before m ([sep].intercalate ls) ↔ ∃ l ∈ ls, Occurs before m l := by
  induction ls with
  | nil => simpa using not_occurs_nil hne
  | cons l ls ih =>
    cases ls with
    | nil => simp
    | cons l' ls =>
      rw [List.intercalate_cons_cons, List.append_assoc, List.singleton_append,
        occurs_separated hne hsep hbefore, ih]
      simp only [List.exists_mem_cons_iff]

theorem map_intercalate {β : Type} (f : α → β) (sep : α) (ls : List (List α)) :
    ([sep].intercalate ls).map f = [f sep].intercalate (ls.map (List.map f)) := by
  induction ls with
  | nil => rfl
  | cons l ls ih =>
    cases ls with
    | nil => simp
    | cons l' ls =>
      rw [List.intercalate_cons_cons, List.map_append, List.map_append, ih]
      exact (List.intercalate_cons_cons ..).symm

end Joins

end RivicQ.Lib.Occurrences

namespace RivicQ.Lib.Patterns

/-- `LIKE`: a percent sign stands for any text, an underscore for any rune, and a backslash takes the
next rune as it is. -/
def like : List Char → List Char → Bool
  | [], t => t.isEmpty
  | '%' :: ps, t => t.tails.any (like ps)
  | '_' :: ps, t => t.head?.isSome && like ps t.tail
  | '\\' :: c :: ps, t => t.head? == some c && like ps t.tail
  | c :: ps, t => t.head? == some c && like ps t.tail

/-- A rune that stands for itself in a pattern. -/
def Literal (c : Char) : Prop := c ≠ '%' ∧ c ≠ '_' ∧ c ≠ '\\'

instance (c : Char) : Decidable (Literal c) := inferInstanceAs (Decidable (_ ∧ _ ∧ _))

variable {m ps t : List Char} {c : Char}

theorem like_literal (h : Literal c) : like (c :: ps) t = (t.head? == some c && like ps t.tail) := by
  rw [like]
  · exact h.1
  · exact h.2.1
  · exact fun _ _ hc => absurd hc h.2.2

theorem like_append (h : ∀ c ∈ m, Literal c) :
    like (m ++ ps) t = true ↔ ∃ b, t = m ++ b ∧ like ps b = true := by
  induction m generalizing t with
  | nil => simp
  | cons c m ih =>
    obtain ⟨hc, hm⟩ := List.forall_mem_cons.mp h
    rw [List.cons_append, like_literal hc, Bool.and_eq_true, ih hm, beq_iff_eq]
    constructor
    · rintro ⟨hhead, b, hb, hlike⟩
      obtain ⟨t', rfl⟩ := List.head?_eq_some_iff.mp hhead
      exact ⟨b, congrArg (c :: ·) hb, hlike⟩
    · rintro ⟨b, rfl, hlike⟩
      exact ⟨rfl, b, rfl, hlike⟩

theorem like_any : like ('%' :: ps) t = true ↔ ∃ a b, t = a ++ b ∧ like ps b = true := by
  rw [like, List.any_eq_true]
  constructor
  · rintro ⟨b, hb, hlike⟩
    obtain ⟨a, rfl⟩ := (List.mem_tails b t).mp hb
    exact ⟨a, b, rfl, hlike⟩
  · rintro ⟨a, b, rfl, hlike⟩
    exact ⟨b, (List.mem_tails b _).mpr (List.suffix_append a b), hlike⟩

/-- Between percent signs a plain text is looked for anywhere. -/
theorem like_infix (h : ∀ c ∈ m, Literal c) :
    like ('%' :: (m ++ ['%'])) t = true ↔ m <:+: t := by
  rw [like_any]
  constructor
  · rintro ⟨a, b, rfl, hlike⟩
    obtain ⟨b, rfl, -⟩ := (like_append h).mp hlike
    exact ⟨a, b, List.append_assoc a m b⟩
  · rintro ⟨a, b, rfl⟩
    refine ⟨a, m ++ b, List.append_assoc a m b, (like_append h).mpr ⟨b, rfl, ?_⟩⟩
    exact like_any.mpr ⟨b, [], (List.append_nil b).symm, rfl⟩

end RivicQ.Lib.Patterns
