import Mathlib.Data.List.Basic

namespace RivicQ.Lib.Base64

/-- The value of a digit of the standard alphabet. -/
def digit (c : Char) : Option Nat :=
  let n := c.toNat
  if 65 ≤ n ∧ n ≤ 90 then some (n - 65)
  else if 97 ≤ n ∧ n ≤ 122 then some (n - 71)
  else if 48 ≤ n ∧ n ≤ 57 then some (n + 4)
  else if c = '+' then some 62
  else if c = '/' then some 63
  else none

def isBreak (c : Char) : Bool := c = '\n' || c = '\r'

def byte₀ (x y : Nat) : UInt8 := UInt8.ofNat (x * 4 + y / 16)

def byte₁ (y z : Nat) : UInt8 := UInt8.ofNat (y % 16 * 16 + z / 4)

def byte₂ (z w : Nat) : UInt8 := UInt8.ofNat (z % 4 * 64 + w)

/-- Decode groups of four digits; only the last one may be padded, and the bits it has to
spare are not looked at. -/
def decodeGroups : List Char → Option (List UInt8)
  | [] => some []
  | a :: b :: c :: d :: rest =>
    match digit a, digit b, digit c, digit d with
    | some x, some y, some z, some w =>
      (decodeGroups rest).map fun bytes => byte₀ x y :: byte₁ y z :: byte₂ z w :: bytes
    | some x, some y, some z, none =>
      if d = '=' ∧ rest = [] then some [byte₀ x y, byte₁ y z] else none
    | some x, some y, none, _ =>
      if c = '=' ∧ d = '=' ∧ rest = [] then some [byte₀ x y] else none
    | _, _, _, _ => none
  | _ => none

/-- `base64.StdEncoding.DecodeString`, which passes over line breaks. -/
def decodeString (s : String) : Option (List UInt8) :=
  decodeGroups (s.toList.filter fun c => !isBreak c)

def hexDigit (n : Nat) : Char := Nat.digitChar n

/-- Lower-case hexadecimal. -/
def hexChars (bytes : List UInt8) : List Char :=
  bytes.flatMap fun b => [hexDigit (b.toNat / 16), hexDigit (b.toNat % 16)]

def hexString (bytes : List UInt8) : String := String.ofList (hexChars bytes)

/-- Text without padding decodes to three bytes for every four digits. -/
theorem length_decodeGroups {s : List Char} {bytes : List UInt8}
    (hdigits : ∀ c ∈ s, (digit c).isSome) (h : decodeGroups s = some bytes) :
    4 * bytes.length = 3 * s.length := by
  fun_induction decodeGroups s generalizing bytes with
  | case1 =>
    cases h
    rfl
  | case2 a b c d rest x y z w hd hc hb ha ih =>
    obtain ⟨tail, htail, rfl⟩ := Option.map_eq_some_iff.mp h
    have hlength := ih (fun c hc => hdigits c (by simp [hc])) htail
    simp only [List.length_cons]
    omega
  | case3 a b c d rest x y z hd hc hb ha hpad =>
    exact absurd (hdigits d (by simp)) (by simp [hd])
  | case5 a b c d rest x y hc hb ha hpad =>
    exact absurd (hdigits c (by simp)) (by simp [hc])
  | _ => cases h


theorem hexDigit_digit (n : Nat) (hn : n < 16) :
    (digit (hexDigit n)).isSome = true ∧ isBreak (hexDigit n) = false := by
  revert hn n
  decide

theorem mem_hexChars {bytes : List UInt8} {c : Char} (h : c ∈ hexChars bytes) :
    (digit c).isSome = true ∧ isBreak c = false := by
  obtain ⟨b, _, hc⟩ := List.mem_flatMap.mp h
  have hb : b.toNat < 256 := b.toNat_lt
  simp only [List.mem_cons, List.not_mem_nil, or_false] at hc
  obtain rfl | rfl := hc
  · exact hexDigit_digit _ (by omega)
  · exact hexDigit_digit _ (by omega)

theorem length_hexChars (bytes : List UInt8) : (hexChars bytes).length = 2 * bytes.length := by
  rw [hexChars, List.length_flatMap]
  simp [Nat.mul_comm]

/-- Hexadecimal text does not decode, as if it were base64, to the bytes it stands for. -/
theorem decodeString_hexString {bytes : List UInt8} (h : bytes ≠ []) :
    decodeString (hexString bytes) ≠ some bytes := by
  intro hdecode
  have hfilter : (hexChars bytes).filter (fun c => !isBreak c) = hexChars bytes :=
    List.filter_eq_self.mpr fun c hc => by simp [(mem_hexChars hc).2]
  rw [decodeString, hexString, String.toList_ofList, hfilter] at hdecode
  have hlength := length_decodeGroups (fun c hc => (mem_hexChars hc).1) hdecode
  rw [length_hexChars] at hlength
  have hpos := List.length_pos_of_ne_nil h
  omega

end RivicQ.Lib.Base64

namespace RivicQ.Lib.Slices

/-- So many elements at the front of an array, which may go on behind them. -/
structure Slice (α : Type) where
  array : List α
  len : Nat
  len_le : len ≤ array.length

variable {α : Type} {s t : Slice α} {xs : List α} {n : Nat}

def Slice.elems (s : Slice α) : List α := s.array.take s.len

def Slice.cap (s : Slice α) : Nat := s.array.length

/-- Some elements, with what lies behind them in their array. -/
def Slice.before (xs spare : List α) : Slice α :=
  ⟨xs ++ spare, xs.length, List.length_append ▸ Nat.le_add_right _ _⟩

/-- `s[:n]`, which faults beyond the capacity. -/
def Slice.upTo (s : Slice α) (n : Nat) : Option (Slice α) :=
  if h : n ≤ s.cap then some ⟨s.array, n, h⟩ else none

/-- `append(s, xs...)`, with what the array of `s` holds afterwards: where there is room, the new
elements are written to it. -/
def Slice.append (s : Slice α) (xs : List α) : Slice α × Slice α :=
  if h : s.len + xs.length ≤ s.cap then
    let array := s.elems ++ xs ++ s.array.drop (s.len + xs.length)
    have hlength : s.elems.length = s.len := List.length_take_of_le s.len_le
    (⟨array, s.len + xs.length, by simp only [array, List.length_append, hlength]; omega⟩,
      ⟨array, s.len, by simp only [array, List.length_append, hlength]; omega⟩)
  else (Slice.before (s.elems ++ xs) [], s)

section Basics

@[simp] theorem elems_before (xs spare : List α) : (Slice.before xs spare).elems = xs :=
  List.take_left

@[simp] theorem cap_before (xs spare : List α) :
    (Slice.before xs spare).cap = xs.length + spare.length := List.length_append

theorem length_elems : s.elems.length = s.len := List.length_take_of_le s.len_le

theorem upTo_eq_none_iff : s.upTo n = none ↔ s.cap < n := by
  unfold Slice.upTo
  split_ifs with h
  · exact iff_of_false not_false (Nat.not_lt.mpr h)
  · exact iff_of_true rfl (Nat.lt_of_not_le h)

theorem elems_upTo (h : s.upTo n = some t) : t.elems = s.array.take n := by
  unfold Slice.upTo at h
  split_ifs at h
  cases h
  rfl

end Basics

section Append

/-- The array of the old slice with its new elements, where they have room in it. -/
theorem array_append : (s.append xs).2.array =
    if s.len + xs.length ≤ s.cap then s.elems ++ xs ++ s.array.drop (s.len + xs.length)
    else s.array := by
  unfold Slice.append
  split_ifs <;> rfl

theorem cap_append : (s.append xs).2.cap = s.cap := by
  rw [Slice.cap, array_append]
  split_ifs with h
  · rw [List.length_append, List.length_append, length_elems, List.length_drop]
    exact Nat.add_sub_cancel' h
  · rfl

/-- The elements of a slice are not changed. -/
theorem take_append (h : n ≤ s.len) : (s.append xs).2.array.take n = s.array.take n := by
  rw [array_append]
  split_ifs
  · rw [List.append_assoc, List.take_append_of_le_length (length_elems.symm ▸ h), Slice.elems,
      List.take_take, Nat.min_eq_left h]
  · rfl

end Append

end RivicQ.Lib.Slices

namespace RivicQ.Lib.Bytes

abbrev Bytes := List UInt8

/-- The bytes of a text of ASCII characters. -/
def ascii (s : String) : Bytes := s.toList.map fun c => UInt8.ofNat c.toNat

theorem length_ascii (s : String) : (ascii s).length = s.toList.length := List.length_map ..

theorem ofNat_injective : Function.Injective fun b : UInt8 => Char.ofNat b.toNat := by
  have htoNat : ∀ b : UInt8, (Char.ofNat b.toNat).toNat = b.toNat := by
    intro b
    have hvalid : b.toNat.isValidChar := .inl (by have := b.toNat_lt; omega)
    rw [Char.ofNat, dif_pos hvalid]
    rfl
  intro b b' h
  exact UInt8.toNat_inj.mp (htoNat b ▸ htoNat b' ▸ congrArg Char.toNat h)

end RivicQ.Lib.Bytes
