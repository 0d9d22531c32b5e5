import RivicQ.Cryptoscan.Detect
import RivicQ.Lib.Occurrences

namespace RivicQ.Cryptoscan.Tokens

open RivicQ.Lib.Bytes RivicQ.Lib.Occurrences RivicQ.Cryptoscan.Detect

def isAlnumByte (b : UInt8) : Bool :=
  (0x61 ≤ b && b ≤ 0x7a) || (0x41 ≤ b && b ≤ 0x5a) || (0x30 ≤ b && b ≤ 0x39)

section Loop

variable {α : Type} [DecidableEq α] (alnum : α → Bool) (lower m : List α)

/-- So many rounds of the search from an index on; no answer yet if they do not suffice. -/
def searchFrom : Nat → Nat → Option Bool
  | 0, _ => none
  | rounds + 1, idx =>
    match index m (lower.drop idx) with
    | none => some false
    | some i =>
      let pos := idx + i
      if pos = 0 ∨ (lower[pos - 1]?).any alnum = false then some true
      else
        let idx := pos + 1
        if idx ≥ lower.length then some false else searchFrom rounds idx

/-- An occurrence that is at the front or right behind something else than a letter or a digit. -/
def TokenAt (pos : Nat) : Prop :=
  m <+: lower.drop pos ∧ (pos = 0 ∨ (lower[pos - 1]?).any alnum = false)

variable {alnum lower m}

omit [DecidableEq α] in
theorem not_tokenAt_end (hne : m ≠ []) {pos : Nat} (hpos : lower.length ≤ pos) :
    ¬ TokenAt alnum lower m pos := by
  rintro ⟨hbegins, -⟩
  rw [List.drop_eq_nil_of_le hpos] at hbegins
  exact hne (List.prefix_nil.mp hbegins)

/-- Before the next occurrence there is no token. -/
theorem not_tokenAt_before {idx i : Nat} (hi : index m (lower.drop idx) = some i)
    (hbefore : ∀ p < idx, ¬ TokenAt alnum lower m p) {p : Nat} (hp : p < idx + i) :
    ¬ TokenAt alnum lower m p := by
  by_cases hidx : p < idx
  · exact hbefore p hidx
  · rintro ⟨hbegins, -⟩
    have hfirst := (index_eq_some hi).2.2 (p - idx) (by omega)
    rw [List.drop_drop, Nat.add_sub_cancel' (Nat.not_lt.mp hidx)] at hfirst
    exact hfirst hbegins

theorem searchFrom_spec (hne : m ≠ []) (rounds idx : Nat) (hidx : idx ≤ lower.length)
    (hrounds : lower.length < idx + rounds) (hbefore : ∀ p < idx, ¬ TokenAt alnum lower m p) :
    ∃ b, searchFrom alnum lower m rounds idx = some b ∧
      (b = true ↔ ∃ pos, TokenAt alnum lower m pos) := by
  induction rounds generalizing idx with
  | zero => omega
  | succ rounds ih =>
    rw [searchFrom]
    cases hi : index m (lower.drop idx) with
    | none =>
      refine ⟨false, rfl, iff_of_false Bool.false_ne_true ?_⟩
      rintro ⟨p, hp⟩
      by_cases hlt : p < idx
      · exact hbefore p hlt hp
      · have hnone := index_eq_none hi (p - idx)
        rw [List.drop_drop, Nat.add_sub_cancel' (Nat.not_lt.mp hlt)] at hnone
        exact hnone hp.1
    | some i =>
      obtain ⟨hbegins, -, -⟩ := index_eq_some hi
      rw [List.drop_drop] at hbegins
      dsimp only
      split_ifs with htoken hend
      · exact ⟨true, rfl, iff_of_true rfl ⟨idx + i, hbegins, htoken⟩⟩
      all_goals
        have hpassed : ∀ p < idx + i + 1, ¬ TokenAt alnum lower m p := by
          intro p hp
          obtain hlt | rfl := Nat.lt_succ_iff_lt_or_eq.mp hp
          · exact not_tokenAt_before hi hbefore hlt
          · exact fun h => htoken h.2
      · refine ⟨false, rfl, iff_of_false Bool.false_ne_true ?_⟩
        rintro ⟨p, hp⟩
        by_cases hlt : p < idx + i + 1
        · exact hpassed p hlt hp
        · exact not_tokenAt_end hne (by omega) hp
      · exact ih (idx + i + 1) (by omega) (by omega) hpassed

/-- The search ends in at most one round more than the text is long. -/
theorem searchFrom_front (hne : m ≠ []) {rounds : Nat} (hrounds : lower.length < rounds) :
    ∃ b, searchFrom alnum lower m rounds 0 = some b ∧
      (b = true ↔ ∃ pos, TokenAt alnum lower m pos) :=
  searchFrom_spec hne rounds 0 (Nat.zero_le _) (by omega) nofun

omit [DecidableEq α] in
/-- What comes right before an occurrence, by where the text splits. -/
theorem exists_tokenAt_iff (hne : m ≠ []) : (∃ pos, TokenAt alnum lower m pos) ↔
    Occurs (fun c => c.any alnum = false) m lower := by
  constructor
  · rintro ⟨pos, htoken⟩
    have hlt : pos < lower.length := by
      by_contra hend
      exact not_tokenAt_end hne (Nat.not_lt.mp hend) htoken
    obtain ⟨⟨b, hb⟩, hbefore⟩ := htoken
    refine ⟨lower.take pos, b, by rw [hb, List.take_append_drop], ?_⟩
    cases pos with
    | zero => rfl
    | succ pos =>
      have hlt' : pos < lower.length := Nat.lt_of_succ_lt hlt
      rw [Nat.add_sub_cancel, List.getElem?_eq_getElem hlt'] at hbefore
      rw [List.take_succ_eq_append_getElem hlt', List.getLast?_concat]
      exact hbefore.resolve_left (Nat.succ_ne_zero pos)
  · rintro ⟨a, b, rfl, hbefore⟩
    refine ⟨a.length, ⟨b, by rw [List.drop_left]⟩, ?_⟩
    cases a using List.reverseRecOn with
    | nil => exact .inl rfl
    | append_singleton a c =>
      right
      rw [List.getLast?_concat] at hbefore
      simpa using hbefore

end Loop

section Bytes

variable (lower m : Bytes)

/-- The search over the bytes of a text. -/
def tokenContains : Option Bool := searchFrom isAlnumByte lower m (lower.length + 1) 0

end Bytes

section Runes

variable {m s : List Char}

theorem tokenFrom_iff (hne : m ≠ []) (boundary : Bool) : tokenFrom m boundary s = true ↔
    ∃ a b, s = a ++ (m ++ b) ∧ (a.getLast?.elim boundary fun c => !isAlnum c) = true := by
  induction s generalizing boundary with
  | nil =>
    refine iff_of_false Bool.false_ne_true ?_
    rintro ⟨a, b, h, -⟩
    exact hne (List.append_eq_nil_iff.mp (List.append_eq_nil_iff.mp h.symm).2).1
  | cons c s ih =>
    rw [tokenFrom, Bool.or_eq_true, Bool.and_eq_true, ih]
    constructor
    · rintro (⟨hbegins, hboundary⟩ | ⟨a, b, rfl, hlast⟩)
      · obtain ⟨b, hb⟩ := List.isPrefixOf_iff_prefix.mp hbegins
        exact ⟨[], b, hb.symm, hboundary⟩
      · refine ⟨c :: a, b, rfl, ?_⟩
        rw [List.getLast?_cons]
        cases hgetLast : a.getLast? with
        | none => simpa [hgetLast] using hlast
        | some d => simpa [hgetLast] using hlast
    · rintro ⟨a, b, h, hlast⟩
      cases a with
      | nil => exact .inl ⟨List.isPrefixOf_iff_prefix.mpr ⟨b, h.symm⟩, hlast⟩
      | cons d a =>
        obtain ⟨rfl, rfl⟩ := List.cons.inj h
        refine .inr ⟨a, b, rfl, ?_⟩
        rw [List.getLast?_cons] at hlast
        cases hgetLast : a.getLast? with
        | none => simpa [hgetLast] using hlast
        | some d => simpa [hgetLast] using hlast

/-- A letter or a digit does not come right before a token. -/
theorem tokenContains_iff {surface : Surface} {marker : String} (hne : marker ≠ "") :
    surface.tokenContains marker = true ↔
      Occurs (fun c => c.any isAlnum = false) marker.toList surface.lower.toList := by
  have hm : marker.toList ≠ [] := mt String.toList_eq_nil_iff.mp hne
  rw [Surface.tokenContains, tokenFrom_iff hm]
  refine exists₂_congr fun a b => and_congr_right fun _ => ?_
  cases a.getLast? with
  | none => exact iff_of_true rfl rfl
  | some c => simp

/-- The search over runes finds what the surface says. -/
theorem searchFrom_surface (surface : Surface) {marker : String} (hne : marker ≠ "") :
    searchFrom isAlnum surface.lower.toList marker.toList (surface.lower.toList.length + 1) 0 =
      some (surface.tokenContains marker) := by
  have hm : marker.toList ≠ [] := mt String.toList_eq_nil_iff.mp hne
  obtain ⟨b, hb, hiff⟩ : ∃ b, searchFrom isAlnum surface.lower.toList marker.toList
      (surface.lower.toList.length + 1) 0 = some b ∧
        (b = true ↔ ∃ pos, TokenAt isAlnum surface.lower.toList marker.toList pos) :=
    searchFrom_front hm (Nat.lt_succ_self _)
  rw [exists_tokenAt_iff hm, ← tokenContains_iff hne, Bool.eq_iff_iff.symm] at hiff
  rw [hb, hiff]

end Runes

end RivicQ.Cryptoscan.Tokens
