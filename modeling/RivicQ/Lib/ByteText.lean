import RivicQ.Lib.Bytes
import RivicQ.Lib.Stripping

namespace RivicQ.Lib.ByteText

open RivicQ.Lib.Bytes RivicQ.Lib.Stripping

/-- The white space of Unicode in UTF-8. -/
def spaceWords : List Bytes :=
  [[0x09], [0x0a], [0x0b], [0x0c], [0x0d], [0x20], [0xc2, 0x85], [0xc2, 0xa0], [0xe1, 0x9a, 0x80],
    [0xe2, 0x80, 0x80], [0xe2, 0x80, 0x81], [0xe2, 0x80, 0x82], [0xe2, 0x80, 0x83],
    [0xe2, 0x80, 0x84], [0xe2, 0x80, 0x85], [0xe2, 0x80, 0x86], [0xe2, 0x80, 0x87],
    [0xe2, 0x80, 0x88], [0xe2, 0x80, 0x89], [0xe2, 0x80, 0x8a], [0xe2, 0x80, 0xa8],
    [0xe2, 0x80, 0xa9], [0xe2, 0x80, 0xaf], [0xe2, 0x81, 0x9f], [0xe3, 0x80, 0x80]]

theorem parted_spaceWords : Parted spaceWords := by decide

def spaces : Code UInt8 := ⟨spaceWords, parted_spaceWords⟩

/-- `strings.TrimSpace` on a string of any bytes. -/
def trimSpace (s : Bytes) : Bytes := trim spaces s

/-- `strings.Split` at line feeds. -/
def lines (s : Bytes) : List Bytes := s.splitOn 0x0a

def Blank (s : Bytes) : Prop := Made spaces s

/-- An ASCII character that is seen. -/
def Graphic (c : UInt8) : Prop := 0x20 < c.toNat ∧ c.toNat < 0x7f

instance (c : UInt8) : Decidable (Graphic c) :=
  inferInstanceAs (Decidable (0x20 < c.toNat ∧ c.toNat < 0x7f))

/-- What may end a line before the rest of a text. -/
def LineEnd (e rest : Bytes) : Prop := e = [0x0a] ∨ e = [0x0d, 0x0a] ∨ e = [] ∧ rest = []

/-- A digit, in either case, and its value. -/
def HexDigit (c : UInt8) (v : Nat) : Prop :=
  v < 10 ∧ c.toNat = 0x30 + v ∨ 10 ≤ v ∧ v < 16 ∧ (c.toNat = 0x37 + v ∨ c.toNat = 0x57 + v)

/-- Two hexadecimal digits for each byte, the high half first. -/
inductive Spells : Bytes → Bytes → Prop where
  | nil : Spells [] []
  | cons {h l b : UInt8} {digits bytes : Bytes} (hh : HexDigit h (b.toNat / 16))
      (hl : HexDigit l (b.toNat % 16)) (hrest : Spells digits bytes) :
      Spells (h :: l :: digits) (b :: bytes)

def upperDigit (n : Nat) : UInt8 := UInt8.ofNat (if n < 10 then 0x30 + n else 0x37 + n)

def upperHex (bytes : Bytes) : Bytes :=
  bytes.flatMap fun b => [upperDigit (b.toNat / 16), upperDigit (b.toNat % 16)]

def lowerDigit (n : Nat) : UInt8 := UInt8.ofNat (if n < 10 then 0x30 + n else 0x57 + n)

/-- `hex.EncodeToString`. -/
def lowerHex (bytes : Bytes) : Bytes :=
  bytes.flatMap fun b => [lowerDigit (b.toNat / 16), lowerDigit (b.toNat % 16)]

/-- The value of a digit, in either case. -/
def hexValue (c : UInt8) : Option Nat :=
  if 0x30 ≤ c ∧ c ≤ 0x39 then some (c.toNat - 0x30)
  else if 0x61 ≤ c ∧ c ≤ 0x66 then some (c.toNat - 0x61 + 10)
  else if 0x41 ≤ c ∧ c ≤ 0x46 then some (c.toNat - 0x41 + 10)
  else none

inductive HexError where
  | invalidByte (c : UInt8)
  | length
  deriving DecidableEq

/-- `hex.DecodeString`: the bytes that were decoded before an error come with it. -/
def decodeHex : Bytes → Bytes × Option HexError
  | [] => ([], none)
  | [p] => ([], some (if (hexValue p).isSome then .length else .invalidByte p))
  | p :: q :: rest =>
    match hexValue p, hexValue q with
    | some a, some b =>
      (UInt8.ofNat (a <<< 4 ||| b) :: (decodeHex rest).1, (decodeHex rest).2)
    | some _, none => ([], some (.invalidByte q))
    | none, _ => ([], some (.invalidByte p))

variable {s v w e rest line digits bytes : Bytes} {a b : UInt8}

theorem blank_nil : Blank [] := made_nil

theorem blank_cr : Blank [0x0d] := made_word (by decide)

theorem not_graphic_mem : ∀ u ∈ spaceWords, ∀ c ∈ u, ¬ (0x20 < c.toNat ∧ c.toNat < 0x7f) := by
  have hall : spaceWords.all (fun u => u.all fun c =>
      !(decide (0x20 < c.toNat) && decide (c.toNat < 0x7f))) = true := by
    decide
  simpa only [List.all_eq_true, Bool.not_eq_true', Bool.and_eq_false_iff, decide_eq_false_iff_not,
    not_and_or] using hall

theorem trimSpace_eq_nil_iff : trimSpace s = [] ↔ Blank s := trim_eq_nil_iff

/-- Blanks around a text that begins and ends with characters that are seen are trimmed. -/
theorem trimSpace_graphic (hv : Blank v) (hw : Blank w) (hs : s.head? = some a) (ha : Graphic a)
    (ht : s.getLast? = some b) (hb : Graphic b) : trimSpace (v ++ s ++ w) = s := by
  have hfirst : ∀ u ∈ spaces.words, u.head? ≠ some a := fun u hu he =>
    not_graphic_mem u hu a (List.mem_of_head? he) ha
  have hlast : ∀ u ∈ spaces.words, u.getLast? ≠ some b := fun u hu he =>
    not_graphic_mem u hu b (List.mem_of_getLast? he) hb
  exact trim_made hv hw hfirst hs hlast ht

theorem trimSpace_spec (s : Bytes) : ∃ v w, Blank v ∧ Blank w ∧ s = v ++ trimSpace s ++ w := by
  obtain ⟨v, w, hv, hw, he, -⟩ := trim_spec spaces s
  exact ⟨v, w, hv, hw, he⟩

theorem not_blank_graphic (hs : a ∈ s) (ha : Graphic a) : ¬ Blank s := by
  rintro ⟨ws, hws, rfl⟩
  obtain ⟨u, hu, hau⟩ := List.mem_flatten.mp hs
  exact not_graphic_mem u (hws u hu) a hau ha

/-- A line ends at the first line feed, and a carriage return before that is blank. -/
theorem lines_lineEnd (hline : 0x0a ∉ line) (he : LineEnd e rest) :
    ∃ cr, Blank cr ∧ (lines (line ++ e ++ rest) = (line ++ cr) :: lines rest ∨
      rest = [] ∧ lines (line ++ e ++ rest) = [line ++ cr]) := by
  obtain rfl | rfl | ⟨rfl, rfl⟩ := he
  · refine ⟨[], blank_nil, .inl ?_⟩
    rw [List.append_assoc, List.append_nil]
    exact List.splitOn_append_cons_self_of_not_mem hline rest
  · have hcr : (0x0a : UInt8) ∉ line ++ [0x0d] := by simpa using hline
    refine ⟨[0x0d], blank_cr, .inl ?_⟩
    have hsplit := List.splitOn_append_cons_self_of_not_mem hcr rest
    rwa [List.append_assoc] at hsplit ⊢
  · refine ⟨[], blank_nil, .inr ⟨rfl, ?_⟩⟩
    rw [List.append_nil, List.append_nil]
    exact List.splitOn_eq_singleton hline

/-- Characters that are seen stay at the front of the first line. -/
theorem lines_front {g : Bytes} (hg : 0x0a ∉ g) (u : Bytes) :
    ∃ h rest, lines (g ++ u) = (g ++ h) :: rest := by
  induction g with
  | nil =>
    obtain ⟨h, rest, he⟩ := List.exists_cons_of_ne_nil (List.splitOn_ne_nil 0x0a u)
    exact ⟨h, rest, he⟩
  | cons c g ih =>
    obtain ⟨hc, hg⟩ := not_or.mp (List.mem_cons.not.mp hg)
    obtain ⟨h, rest, he⟩ := ih hg
    refine ⟨h, rest, ?_⟩
    have hne : ¬ (c == 0x0a) = true := fun h => hc (beq_iff_eq.mp h).symm
    rw [lines, List.cons_append, List.splitOn_cons_eq_if_modifyHead, if_neg hne]
    change (lines (g ++ u)).modifyHead (c :: ·) = _
    rw [he]
    rfl

theorem trimSpace_front {g : Bytes} (hne : g ≠ []) (hg : ∀ c ∈ g, Graphic c) (u : Bytes) :
    ∃ h, trimSpace (g ++ u) = g ++ h := by
  obtain ⟨v, w, hv, hw, he⟩ := trimSpace_spec (g ++ u)
  obtain ⟨c, g', rfl⟩ := List.exists_cons_of_ne_nil hne
  have hvnil : v = [] := by
    cases v with
    | nil => rfl
    | cons b v =>
      have hb : c = b := (List.cons.inj he).1
      exact absurd hv (not_blank_graphic (hb ▸ List.mem_cons_self) (hg c List.mem_cons_self))
  rw [hvnil, List.nil_append] at he
  -- the blanks at the end do not reach into what is seen
  obtain ⟨h, ht, -⟩ | ⟨h, hgh, hwh⟩ := List.append_eq_append_iff.mp he
  · exact ⟨h, ht⟩
  · cases h with
    | nil =>
      rw [List.append_nil] at hgh
      exact ⟨[], by rw [List.append_nil, ← hgh]⟩
    | cons b h =>
      have hb : b ∈ c :: g' := hgh ▸ List.mem_append_right _ List.mem_cons_self
      have hbw : b ∈ w := hwh ▸ List.mem_append_left _ List.mem_cons_self
      exact absurd hw (not_blank_graphic hbw (hg b hb))

theorem graphic_hexDigit {n : Nat} (h : HexDigit a n) : Graphic a := by
  unfold HexDigit at h
  unfold Graphic
  omega

theorem graphic_spells (h : Spells digits bytes) (ha : a ∈ digits) : Graphic a := by
  induction h with
  | nil => exact absurd ha List.not_mem_nil
  | cons hh hl _ ih =>
    obtain rfl | ha := List.mem_cons.mp ha
    · exact graphic_hexDigit hh
    obtain rfl | ha := List.mem_cons.mp ha
    · exact graphic_hexDigit hl
    exact ih ha

theorem length_spells (h : Spells digits bytes) : digits.length = 2 * bytes.length := by
  induction h with
  | nil => rfl
  | cons _ _ _ ih =>
    rw [List.length_cons, List.length_cons, List.length_cons, ih]
    omega

theorem hexDigit_upperDigit {n : Nat} (hn : n < 16) : HexDigit (upperDigit n) n := by
  unfold HexDigit upperDigit
  rw [UInt8.toNat_ofNat']
  split_ifs <;> omega

theorem hexDigit_lowerDigit {n : Nat} (hn : n < 16) : HexDigit (lowerDigit n) n := by
  unfold HexDigit lowerDigit
  rw [UInt8.toNat_ofNat']
  split_ifs <;> omega

/-- Bytes are spelled by the digits of their halves. -/
theorem spells_digits {digit : Nat → UInt8} (h : ∀ n < 16, HexDigit (digit n) n) (bytes : Bytes) :
    Spells (bytes.flatMap fun b => [digit (b.toNat / 16), digit (b.toNat % 16)]) bytes := by
  induction bytes with
  | nil => exact .nil
  | cons b bytes ih =>
    have hlt := b.toNat_lt
    exact .cons (h _ (by omega)) (h _ (by omega)) ih

theorem spells_upperHex (bytes : Bytes) : Spells (upperHex bytes) bytes :=
  spells_digits (fun _ => hexDigit_upperDigit) bytes

theorem spells_lowerHex (bytes : Bytes) : Spells (lowerHex bytes) bytes :=
  spells_digits (fun _ => hexDigit_lowerDigit) bytes

theorem hexValue_eq_some_iff {n : Nat} : hexValue a = some n ↔ HexDigit a n := by
  simp only [hexValue, HexDigit, UInt8.le_iff_toNat_le, UInt8.reduceToNat]
  split_ifs with hdigit hlower hupper
  · simp only [Option.some.injEq]
    omega
  · simp only [Option.some.injEq]
    omega
  · simp only [Option.some.injEq]
    omega
  · simp only [false_iff]
    omega

theorem lt_hexDigit {n : Nat} (h : HexDigit a n) : n < 16 := by
  unfold HexDigit at h
  omega

theorem byte_halves {hi lo : Nat} (hlo : lo < 16) : hi <<< 4 ||| lo = 16 * hi + lo := by
  rw [← Nat.shiftLeft_add_eq_or_of_lt (i := 4) hlo, Nat.shiftLeft_eq]
  omega

theorem decodeHex_spells (h : Spells digits bytes) : decodeHex digits = (bytes, none) := by
  induction h with
  | nil => rfl
  | @cons h l b digits bytes hh hl _ ih =>
    have hbyte : UInt8.ofNat ((b.toNat / 16) <<< 4 ||| b.toNat % 16) = b := by
      rw [byte_halves (lt_hexDigit hl), Nat.div_add_mod, UInt8.ofNat_toNat]
    simp only [decodeHex, hexValue_eq_some_iff.mpr hh, hexValue_eq_some_iff.mpr hl, ih, hbyte]

theorem lowerHex_injective : Function.Injective lowerHex := by
  intro b c h
  have hb := decodeHex_spells (spells_lowerHex b)
  rw [h, decodeHex_spells (spells_lowerHex c)] at hb
  exact (congrArg Prod.fst hb).symm

/-- Twice as many digits spell so many bytes. -/
theorem spells_take (h : Spells digits bytes) (n : Nat) :
    Spells (digits.take (2 * n)) (bytes.take n) := by
  induction h generalizing n with
  | nil =>
    rw [List.take_nil, List.take_nil]
    exact .nil
  | cons hh hl _ ih =>
    cases n with
    | zero => exact .nil
    | succ n => exact .cons hh hl (ih n)

/-- A text that begins with a character that is seen and ends in digits is trimmed of the blanks
around it. -/
theorem trimSpace_marked (mid : Bytes) (ha : Graphic a) (hv : Blank v) (hw : Blank w)
    (hdigits : Spells digits bytes) (hbytes : bytes ≠ []) :
    trimSpace (v ++ a :: (mid ++ digits) ++ w) = a :: (mid ++ digits) := by
  have hne : digits ≠ [] := by
    rintro rfl
    cases hdigits
    exact hbytes rfl
  have hlast : (a :: (mid ++ digits)).getLast? = some (digits.getLast hne) := by
    rw [← List.cons_append, List.getLast?_append_of_ne_nil _ hne,
      List.getLast?_eq_some_getLast hne]
  exact trimSpace_graphic hv hw rfl ha hlast (graphic_spells hdigits (List.getLast_mem hne))

/-- Blanks in front of digits are trimmed. -/
theorem trimSpace_spelled (hv : Blank v) (hdigits : Spells digits bytes) (hbytes : bytes ≠ []) :
    trimSpace (v ++ digits) = digits := by
  cases hdigits with
  | nil => exact absurd rfl hbytes
  | @cons h l b digits bytes hh hl hrest =>
    have hall : Spells (h :: l :: digits) (b :: bytes) := .cons hh hl hrest
    have hlast := List.getLast?_eq_some_getLast (List.cons_ne_nil h (l :: digits))
    have htrim := trimSpace_graphic hv blank_nil rfl (graphic_hexDigit hh) hlast
      (graphic_spells hall (List.getLast_mem _))
    rwa [List.append_nil] at htrim

theorem lf_not_graphic : ¬ Graphic 0x0a := by decide

end RivicQ.Lib.ByteText
