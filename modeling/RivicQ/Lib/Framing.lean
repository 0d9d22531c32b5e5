import Mathlib.Data.List.Basic

namespace RivicQ.Lib.Numerals

variable {m n : Nat}

theorem toList_toString : (toString n).toList = Nat.toDigits 10 n := by
  rw [Nat.toString_eq_ofList_toDigits, String.toList_ofList]

theorem toString_inj : toString m = toString n ↔ m = n := by
  refine ⟨fun h => ?_, congrArg _⟩
  have hread := congrArg (fun s => Nat.ofDigitChars 10 s.toList 0) h
  simpa only [toList_toString, Nat.ofDigitChars_ten_toDigits] using hread

theorem toString_ne_empty : toString n ≠ "" := by
  intro h
  have hdigits := congrArg String.toList h
  rw [toList_toString] at hdigits
  exact Nat.toDigits_ne_nil hdigits

theorem isDigit_of_mem {c : Char} (h : c ∈ (toString n).toList) : c.isDigit = true := by
  rw [toList_toString] at h
  exact Nat.isDigit_of_mem_toDigits (by decide) (by decide) h

theorem toString_negSucc (n : Nat) : toString (Int.negSucc n) = "-" ++ toString (n + 1) := rfl

theorem toString_ne_negSucc (m n : Nat) : toString (Int.ofNat m) ≠ toString (Int.negSucc n) := by
  intro h
  rw [toString_negSucc] at h
  have hmem : '-' ∈ (toString m).toList := by
    change toString m = _ at h
    rw [h, String.toList_append]
    exact List.mem_append_left _ (by decide)
  exact absurd (isDigit_of_mem hmem) (by decide)

theorem int_toString_inj {i j : Int} : toString i = toString j ↔ i = j := by
  refine ⟨fun h => ?_, congrArg _⟩
  cases i with
  | ofNat m =>
    cases j with
    | ofNat n => exact congrArg Int.ofNat (toString_inj.mp h)
    | negSucc n => exact absurd h (toString_ne_negSucc m n)
  | negSucc m =>
    cases j with
    | ofNat n => exact absurd h.symm (toString_ne_negSucc n m)
    | negSucc n =>
      rw [toString_negSucc, toString_negSucc, String.append_right_inj, toString_inj] at h
      exact congrArg Int.negSucc (Nat.succ.inj h)

end RivicQ.Lib.Numerals

namespace RivicQ.Lib.Framing

variable {sep : Char} {texts texts' : List String}

/-- Some texts one after the other, each with a separator behind it. -/
def terminated (sep : Char) (texts : List String) : String :=
  texts.foldl (fun out t => out ++ t.push sep) ""

theorem toList_terminated (sep : Char) (texts : List String) :
    (terminated sep texts).toList = texts.flatMap fun t => t.toList ++ [sep] := by
  have hfold : ∀ out : String, (texts.foldl (fun out t => out ++ t.push sep) out).toList =
      out.toList ++ texts.flatMap fun t => t.toList ++ [sep] := by
    induction texts with
    | nil => exact fun out => (List.append_nil _).symm
    | cons t texts ih =>
      intro out
      rw [List.foldl_cons, ih, String.toList_append, String.toList_push, List.flatMap_cons,
        List.append_assoc]
  exact (hfold "").trans (List.nil_append _)

/-- The separators before a separator tell which one it is. -/
theorem append_cons_inj_of_count {α : Type} [DecidableEq α] {a : α} {s s' rest rest' : List α}
    (hcount : s.count a = s'.count a) (h : s ++ a :: rest = s' ++ a :: rest') :
    s = s' ∧ rest = rest' := by
  induction s generalizing s' with
  | nil =>
    cases s' with
    | nil => exact ⟨rfl, (List.cons.inj h).2⟩
    | cons c s' =>
      obtain ⟨rfl, -⟩ := List.cons.inj h
      rw [List.count_nil, List.count_cons_self] at hcount
      exact nomatch hcount
  | cons b s ih =>
    cases s' with
    | nil =>
      obtain ⟨rfl, -⟩ := List.cons.inj h
      rw [List.count_nil, List.count_cons_self] at hcount
      exact nomatch hcount
    | cons c s' =>
      obtain ⟨rfl, htail⟩ := List.cons.inj h
      rw [List.count_cons, List.count_cons, Nat.add_right_cancel_iff] at hcount
      obtain ⟨rfl, hrest⟩ := ih hcount htail
      exact ⟨rfl, hrest⟩

theorem append_cons_inj {α : Type} [DecidableEq α] {a : α} {s s' rest rest' : List α}
    (hs : a ∉ s) (hs' : a ∉ s') (h : s ++ a :: rest = s' ++ a :: rest') :
    s = s' ∧ rest = rest' :=
  append_cons_inj_of_count
    ((List.count_eq_zero.mpr hs).trans (List.count_eq_zero.mpr hs').symm) h

/-- Parts with as many separators in each can be told from each other. -/
theorem framed_inj {α : Type} [DecidableEq α] {a : α} {parts parts' : List (List α)}
    {rest rest' : List α}
    (hcount : List.Forall₂ (fun s s' => s.count a = s'.count a) parts parts')
    (h : (parts.flatMap fun s => s ++ [a]) ++ rest = (parts'.flatMap fun s => s ++ [a]) ++ rest') :
    parts = parts' ∧ rest = rest' := by
  induction hcount with
  | nil => exact ⟨rfl, h⟩
  | cons hs _ ih =>
    simp only [List.flatMap_cons, List.append_assoc, List.singleton_append] at h
    obtain ⟨rfl, htail⟩ := append_cons_inj_of_count hs h
    obtain ⟨rfl, hrest⟩ := ih htail
    exact ⟨rfl, hrest⟩

theorem append_cons_inj_right {α : Type} [DecidableEq α] {a : α} {s s' rest rest' : List α}
    (hrest : a ∉ rest) (hrest' : a ∉ rest') (h : s ++ a :: rest = s' ++ a :: rest') :
    s = s' ∧ rest = rest' := by
  replace h := congrArg List.reverse h
  simp only [List.reverse_append, List.reverse_cons, List.append_assoc, List.singleton_append] at h
  have hinj := append_cons_inj (mt List.mem_reverse.mp hrest) (mt List.mem_reverse.mp hrest') h
  exact ⟨List.reverse_inj.mp hinj.2, List.reverse_inj.mp hinj.1⟩

/-- Texts without the separator can be told from each other. -/
theorem terminated_inj (h : ∀ t ∈ texts, sep ∉ t.toList) (h' : ∀ t ∈ texts', sep ∉ t.toList) :
    terminated sep texts = terminated sep texts' ↔ texts = texts' := by
  refine ⟨fun heq => ?_, fun heq => heq ▸ rfl⟩
  replace heq := congrArg String.toList heq
  rw [toList_terminated, toList_terminated] at heq
  induction texts generalizing texts' with
  | nil =>
    cases texts' with
    | nil => rfl
    | cons t' texts' => simp at heq
  | cons t texts ih =>
    cases texts' with
    | nil => simp at heq
    | cons t' texts' =>
      obtain ⟨ht, htexts⟩ := List.forall_mem_cons.mp h
      obtain ⟨ht', htexts'⟩ := List.forall_mem_cons.mp h'
      rw [List.flatMap_cons, List.flatMap_cons, List.append_assoc, List.append_assoc,
        List.singleton_append, List.singleton_append] at heq
      obtain ⟨hlist, hrest⟩ := append_cons_inj ht ht' heq
      rw [String.toList_injective hlist, ih htexts htexts' hrest]

end RivicQ.Lib.Framing
