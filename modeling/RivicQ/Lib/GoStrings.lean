import Mathlib.Data.List.DropRight
import Mathlib.Data.List.Infix

namespace RivicQ.Lib.GoStrings

/-- The white space runes of Unicode, as `unicode.IsSpace` lists them. -/
def isSpace (c : Char) : Bool :=
  [0x09, 0x0a, 0x0b, 0x0c, 0x0d, 0x20, 0x85, 0xa0, 0x1680, 0x2028, 0x2029, 0x202f, 0x205f,
    0x3000].contains c.toNat || (0x2000 ≤ c.toNat && c.toNat ≤ 0x200a)

/-- The Unicode case tables: simple lower and upper case, and a representative
of each case folding orbit. -/
structure CaseMap where
  lower : Char → Char
  upper : Char → Char
  fold : Char → Char
  lower_lower : ∀ c, lower (lower c) = lower c
  isSpace_lower : ∀ c, isSpace (lower c) = isSpace c

def trimRunes (s : List Char) : List Char := (s.dropWhile isSpace).rdropWhile isSpace

def trimSpace (s : String) : String := String.ofList (trimRunes s.toList)

def toLower (cm : CaseMap) (s : String) : String := String.ofList (s.toList.map cm.lower)

def toUpper (cm : CaseMap) (s : String) : String := String.ofList (s.toList.map cm.upper)

def equalFold (cm : CaseMap) (s t : String) : Bool :=
  s.toList.map cm.fold == t.toList.map cm.fold

/-- The text before and after the first occurrence of a one-rune separator. -/
def cut (s : String) (sep : Char) : Option (String × String) :=
  if sep ∈ s.toList then
    some (String.ofList (s.toList.takeWhile (· != sep)),
      String.ofList (s.toList.dropWhile (· != sep)).tail)
  else none

def contains (s sub : String) : Bool := decide (sub.toList <:+: s.toList)

def hasPrefix (s p : String) : Bool := decide (p.toList <+: s.toList)

def hasSuffix (s p : String) : Bool := decide (p.toList <:+ s.toList)

def trimPrefix (s p : String) : String :=
  if hasPrefix s p then String.ofList (s.toList.drop p.length) else s

def trimSuffix (s p : String) : String :=
  if hasSuffix s p then String.ofList (s.toList.rdrop p.length) else s

/-- `strings.TrimRight` with a cutset of one rune. -/
def trimRight (s : String) (c : Char) : String := String.ofList (s.toList.rdropWhile (· == c))

/-- A text without its first bytes. -/
def dropBytes : Nat → List Char → List Char
  | 0, s => s
  | _ + 1, [] => []
  | n + 1, c :: s => dropBytes (n + 1 - c.utf8Size) s

/-- `len` of a Go string counts bytes. -/
def len (s : String) : Nat := s.utf8ByteSize

theorem hasPrefix_append (p s : String) : hasPrefix (p ++ s) p = true := by
  simp [hasPrefix, String.toList_append]

theorem trimPrefix_append (p s : String) : trimPrefix (p ++ s) p = s := by
  rw [trimPrefix, if_pos (hasPrefix_append p s), String.toList_append, ← String.length_toList,
    List.drop_left, String.ofList_toList]

theorem exists_append {s p : String} (h : hasPrefix s p = true) : ∃ t, s = p ++ t := by
  obtain ⟨t, ht⟩ := of_decide_eq_true h
  exact ⟨String.ofList t, by rw [← String.toList_inj, String.toList_append,
    String.toList_ofList, ht]⟩

theorem trimPrefix_of_not {s p : String} (h : ¬ hasPrefix s p = true) : trimPrefix s p = s := if_neg h

theorem dropWhile_rdropWhile (p : Char → Bool) (s : List Char) :
    ((s.dropWhile p).rdropWhile p).dropWhile p = (s.dropWhile p).rdropWhile p := by
  cases hr : (s.dropWhile p).rdropWhile p with
  | nil => rfl
  | cons c r =>
    obtain ⟨t, ht⟩ : (s.dropWhile p).rdropWhile p <+: s.dropWhile p := List.rdropWhile_prefix _ _
    rw [hr, List.cons_append] at ht
    have hc := List.head?_dropWhile_not p s
    rw [← ht] at hc
    simp only [List.head?_cons] at hc
    rw [List.dropWhile_cons_of_neg (by simpa using hc)]

/-- Trimming on the right stops at a rune that is to be kept. -/
theorem rdropWhile_append_cons {p : Char → Bool} {c : Char} (hc : p c = false) (a b : List Char) :
    ∃ b', b' <+: b ∧ (a ++ c :: b).rdropWhile p = a ++ c :: b' := by
  induction b using List.reverseRecOn with
  | nil =>
    refine ⟨[], List.prefix_refl [], ?_⟩
    rw [List.rdropWhile_concat_neg]
    simp [hc]
  | append_singleton b d ih =>
    rw [← List.cons_append, ← List.append_assoc]
    by_cases hd : p d = true
    · obtain ⟨b', hb, he⟩ := ih
      rw [List.rdropWhile_concat_pos p _ _ hd]
      exact ⟨b', hb.trans (List.prefix_append b [d]), he⟩
    · rw [List.rdropWhile_concat_neg p _ _ hd]
      exact ⟨b ++ [d], List.prefix_refl _, by simp⟩

theorem trimRunes_trimRunes (s : List Char) : trimRunes (trimRunes s) = trimRunes s := by
  unfold trimRunes
  rw [dropWhile_rdropWhile, List.rdropWhile_idempotent]

@[simp] theorem trimSpace_trimSpace (s : String) : trimSpace (trimSpace s) = trimSpace s := by
  simp only [trimSpace, String.toList_ofList, trimRunes_trimRunes]

theorem trimRunes_map (f : Char → Char) (hf : ∀ c, isSpace (f c) = isSpace c) (s : List Char) :
    trimRunes (s.map f) = (trimRunes s).map f := by
  have hc : isSpace ∘ f = isSpace := funext hf
  simp only [trimRunes, List.rdropWhile, List.dropWhile_map, ← List.map_reverse, hc]

theorem toLower_trimSpace (cm : CaseMap) (s : String) :
    trimSpace (toLower cm s) = toLower cm (trimSpace s) := by
  simp only [trimSpace, toLower, String.toList_ofList, trimRunes_map cm.lower cm.isSpace_lower]

@[simp] theorem toLower_toLower (cm : CaseMap) (s : String) :
    toLower cm (toLower cm s) = toLower cm s := by
  have hc : cm.lower ∘ cm.lower = cm.lower := funext cm.lower_lower
  simp only [toLower, String.toList_ofList, List.map_map, hc]

theorem toNat_toLower (c : Char) :
    c.toLower.toNat = if 65 ≤ c.toNat ∧ c.toNat ≤ 90 then c.toNat + 32 else c.toNat := by
  unfold Char.toLower
  have hA : ('A'.val ≤ c.val ∧ c.val ≤ 'Z'.val) ↔ (65 ≤ c.toNat ∧ c.toNat ≤ 90) := by
    simp only [UInt32.le_iff_toNat_le]
    exact Iff.rfl
  by_cases h : 'A'.val ≤ c.val ∧ c.val ≤ 'Z'.val
  · have h' := hA.mp h
    have hc : c.val.toNat = c.toNat := rfl
    have h32 : ('a'.val - 'A'.val).toNat = 32 := by decide
    simp only [ge_iff_le, h, and_self, dite_true, h', if_true]
    change (c.val + ('a'.val - 'A'.val)).toNat = _
    rw [UInt32.toNat_add, hc, h32]
    omega
  · have h' := fun hh => h (hA.mpr hh)
    simp only [ge_iff_le, h, dite_false, if_neg h']

theorem toLower_toLower_char (c : Char) : c.toLower.toLower = c.toLower := by
  apply Char.ext
  apply UInt32.toNat_inj.mp
  change c.toLower.toLower.toNat = c.toLower.toNat
  rw [toNat_toLower c.toLower, toNat_toLower]
  by_cases h : 65 ≤ c.toNat ∧ c.toNat ≤ 90
  · rw [if_pos h, if_neg (by omega)]
  · simp only [if_neg h]

theorem isSpace_toLower_char (c : Char) : isSpace c.toLower = isSpace c := by
  rw [Bool.eq_iff_iff]
  simp only [isSpace, toNat_toLower, List.contains_cons, List.contains_nil, Bool.or_false,
    Bool.or_eq_true, beq_iff_eq, Bool.and_eq_true, decide_eq_true_eq]
  split <;> omega

/-- The case tables cut down to ASCII. -/
def asciiCase : CaseMap where
  lower := Char.toLower
  upper := Char.toUpper
  fold := Char.toLower
  lower_lower := toLower_toLower_char
  isSpace_lower := isSpace_toLower_char

end RivicQ.Lib.GoStrings
