import RivicQ.Lib.GoStrings

namespace RivicQ.Lib.Marks

open RivicQ.Lib.GoStrings

/-- Some mark of a list occurs in a text. -/
def Marked (marks : List String) (s : String) : Prop := ∃ m ∈ marks, contains s m = true

instance (marks : List String) (s : String) : Decidable (Marked marks s) :=
  inferInstanceAs (Decidable (∃ m ∈ marks, contains s m = true))

variable {marks marks' : List String} {s t m : String}

theorem contains_iff : contains s t = true ↔ t.toList <:+: s.toList := decide_eq_true_iff

theorem contains_trans (hs : contains s t = true) (ht : contains t m = true) :
    contains s m = true :=
  contains_iff.mpr ((contains_iff.mp ht).trans (contains_iff.mp hs))

theorem Marked.of_contains (ht : Marked marks t) (hs : contains s t = true) : Marked marks s := by
  obtain ⟨m, hm, htm⟩ := ht
  exact ⟨m, hm, contains_trans hs htm⟩

theorem Marked.mono (h : Marked marks s) (hsub : marks ⊆ marks') : Marked marks' s := by
  obtain ⟨m, hm, hs⟩ := h
  exact ⟨m, hsub hm, hs⟩

theorem marked_append : Marked (marks ++ marks') s ↔ Marked marks s ∨ Marked marks' s := by
  simp only [Marked, List.mem_append, or_and_right, exists_or]

theorem marked_cons : Marked (m :: marks) s ↔ contains s m = true ∨ Marked marks s := by
  simp only [Marked, List.mem_cons, or_and_right, exists_or, exists_eq_left]

theorem marked_nil : Marked [] s ↔ False := by
  simp only [Marked, List.not_mem_nil, false_and, exists_false]

theorem any_contains_iff : marks.any (contains s) = true ↔ Marked marks s := List.any_eq_true

section Trimming

variable {p : Char → Bool} {w u : List Char}

/-- What is trimmed on the left has no part of a word without such characters. -/
theorem infix_dropWhile (hw : ∀ c ∈ w, p c = false) (h : w <:+: u) : w <:+: u.dropWhile p := by
  induction u with
  | nil => exact h
  | cons c u ih =>
    by_cases hc : p c = true
    · rw [List.dropWhile_cons_of_pos hc]
      obtain hfront | hrest := List.infix_cons_iff.mp h
      · cases w with
        | nil => exact List.nil_infix
        | cons d w =>
          obtain ⟨rfl, -⟩ := List.cons_prefix_cons.mp hfront
          rw [hw d List.mem_cons_self] at hc
          exact nomatch hc
      · exact ih hrest
    · rw [List.dropWhile_cons_of_neg hc]
      exact h

theorem infix_rdropWhile (hw : ∀ c ∈ w, p c = false) (h : w <:+: u) : w <:+: u.rdropWhile p := by
  have hreverse := infix_dropWhile (w := w.reverse)
    (fun c hc => hw c (List.mem_reverse.mp hc)) (List.reverse_infix.mpr h)
  have hback := List.reverse_infix.mpr hreverse
  rwa [List.reverse_reverse] at hback

theorem infix_trimRunes (hw : ∀ c ∈ w, isSpace c = false) (h : w <:+: u) : w <:+: trimRunes u :=
  infix_rdropWhile hw (infix_dropWhile hw h)

end Trimming

end RivicQ.Lib.Marks

namespace RivicQ.Lib.Casing

open RivicQ.Lib.GoStrings RivicQ.Lib.Marks

/-- Case tables that are those of ASCII on ASCII, and that keep white space apart. -/
structure UnicodeCase extends CaseMap where
  lower_ascii : ∀ c : Char, c.toNat < 128 → lower c = c.toLower
  upper_ascii : ∀ c : Char, c.toNat < 128 → upper c = c.toUpper
  fold_ascii : ∀ c d : Char, c.toNat < 128 → d.toNat < 128 →
    (fold c = fold d ↔ c.toLower = d.toLower)
  isSpace_upper : ∀ c, isSpace (upper c) = isSpace c

def Ascii (s : String) : Prop := ∀ c ∈ s.toList, c.toNat < 128

instance (s : String) : Decidable (Ascii s) :=
  List.decidableBAll (fun c : Char => c.toNat < 128) s.toList

variable (u : UnicodeCase) {s t m : String}

theorem toUpper_ascii (hs : Ascii s) : toUpper u.toCaseMap s = toUpper asciiCase s :=
  congrArg String.ofList (List.map_congr_left fun c hc => u.upper_ascii c (hs c hc))

theorem toLower_ascii (hs : Ascii s) : toLower u.toCaseMap s = toLower asciiCase s :=
  congrArg String.ofList (List.map_congr_left fun c hc => u.lower_ascii c (hs c hc))

theorem map_fold_ascii {a b : List Char} (ha : ∀ c ∈ a, c.toNat < 128)
    (hb : ∀ c ∈ b, c.toNat < 128) :
    a.map u.fold = b.map u.fold ↔ a.map Char.toLower = b.map Char.toLower := by
  induction a generalizing b with
  | nil => simp only [List.map_nil, List.nil_eq, List.map_eq_nil_iff]
  | cons c a ih =>
    cases b with
    | nil => simp only [List.map_nil, List.map_cons, reduceCtorEq]
    | cons d b =>
      obtain ⟨hc, ha⟩ := List.forall_mem_cons.mp ha
      obtain ⟨hd, hb⟩ := List.forall_mem_cons.mp hb
      simp only [List.map_cons, List.cons.injEq, u.fold_ascii c d hc hd, ih ha hb]

theorem equalFold_ascii (hs : Ascii s) (ht : Ascii t) :
    equalFold u.toCaseMap s t = equalFold asciiCase s t := by
  rw [Bool.eq_iff_iff]
  simp only [equalFold, beq_iff_eq]
  exact map_fold_ascii u hs ht

theorem toNat_toUpper (c : Char) :
    c.toUpper.toNat = if 97 ≤ c.toNat ∧ c.toNat ≤ 122 then c.toNat - 32 else c.toNat := by
  unfold Char.toUpper
  have ha : ('a'.val ≤ c.val ∧ c.val ≤ 'z'.val) ↔ (97 ≤ c.toNat ∧ c.toNat ≤ 122) := by
    simp only [UInt32.le_iff_toNat_le]
    exact Iff.rfl
  by_cases h : 'a'.val ≤ c.val ∧ c.val ≤ 'z'.val
  · have h' := ha.mp h
    have hc : c.val.toNat = c.toNat := rfl
    have h32 : ('A'.val - 'a'.val).toNat = 2 ^ 32 - 32 := by decide
    rw [dif_pos h, if_pos h']
    change (c.val + ('A'.val - 'a'.val)).toNat = _
    rw [UInt32.toNat_add, hc, h32]
    omega
  · rw [dif_neg h, if_neg fun h' => h (ha.mpr h')]

theorem isSpace_toUpper_char (c : Char) : isSpace c.toUpper = isSpace c := by
  rw [Bool.eq_iff_iff]
  simp only [isSpace, toNat_toUpper, List.contains_cons, List.contains_nil, Bool.or_false,
    Bool.or_eq_true, beq_iff_eq, Bool.and_eq_true, decide_eq_true_eq]
  split <;> omega

/-- The case tables cut down to ASCII. -/
def asciiTables : UnicodeCase where
  toCaseMap := asciiCase
  lower_ascii := fun _ _ => rfl
  upper_ascii := fun _ _ => rfl
  fold_ascii := fun _ _ _ _ => Iff.rfl
  isSpace_upper := isSpace_toUpper_char

/-- A word without white space is found in a text, in upper case, as it is in the trimmed text. -/
theorem contains_toUpper_trimSpace (hm : ∀ c ∈ m.toList, isSpace c = false)
    (h : contains (toUpper u.toCaseMap s) m = true) :
    contains (toUpper u.toCaseMap (trimSpace s)) m = true := by
  rw [contains_iff] at h ⊢
  simp only [toUpper, trimSpace, String.toList_ofList] at h ⊢
  rw [← trimRunes_map u.upper u.isSpace_upper]
  exact infix_trimRunes hm h

/-- Where upper case is that of the lower case, a text found in lower case is found in upper
case. -/
theorem contains_toUpper_toLower (hs : ∀ c ∈ s.toList, u.upper (u.lower c) = u.upper c)
    (h : contains (toLower u.toCaseMap s) (toLower u.toCaseMap m) = true) :
    contains (toUpper u.toCaseMap s) (toUpper u.toCaseMap (toLower u.toCaseMap m)) = true := by
  rw [contains_iff] at h ⊢
  simp only [toUpper, toLower, String.toList_ofList] at h ⊢
  have hmap := h.map u.upper
  rwa [List.map_map (l := s.toList), List.map_congr_left (f := u.upper ∘ u.lower) hs] at hmap

end RivicQ.Lib.Casing
