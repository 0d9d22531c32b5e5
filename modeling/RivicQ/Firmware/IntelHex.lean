import RivicQ.Firmware.Formats

namespace RivicQ.Firmware.IntelHex

open RivicQ.Lib.Bytes RivicQ.Lib.ByteText RivicQ.Firmware.Formats

/-- The bytes of a record: the number of data bytes, an address, the type, the data and a
checksum. -/
def recordBytes (hi lo typ : UInt8) (d : Bytes) (checksum : UInt8) : Bytes :=
  UInt8.ofNat d.length :: hi :: lo :: typ :: (d ++ [checksum])

/-- A colon and the digits of a record at some address, whose bytes sum to zero. -/
def IsRecord (typ : UInt8) (d text : Bytes) : Prop :=
  ∃ hi lo checksum digits, d.length ≤ 255 ∧ byteSum (recordBytes hi lo typ d checksum) = 0 ∧
    Spells digits (recordBytes hi lo typ d checksum) ∧ text = 0x3a :: digits

/-- A line holds a record between blanks. -/
def Holds (typ : UInt8) (d line : Bytes) : Prop :=
  ∃ v w text, Blank v ∧ Blank w ∧ IsRecord typ d text ∧ line = v ++ text ++ w

/-- An encoding of pieces of an image: a record for each, with other records and blank lines
between them, an end-of-file record and any text after that. -/
inductive Encodes : List Bytes → Bytes → Prop where
  | data {d line e text : Bytes} {ds : List Bytes} (hline : IsRecord 0x00 d line)
      (he : LineEnd e text) (hrest : Encodes ds text) : Encodes (d :: ds) (line ++ e ++ text)
  | other {typ : UInt8} {d line e text : Bytes} {ds : List Bytes}
      (htyp : typ ∈ [0x02, 0x03, 0x04, 0x05]) (hline : IsRecord typ d line)
      (he : LineEnd e text) (hrest : Encodes ds text) : Encodes ds (line ++ e ++ text)
  | blank {line e text : Bytes} {ds : List Bytes} (hline : Blank line) (hlf : 0x0a ∉ line)
      (he : LineEnd e text) (hrest : Encodes ds text) : Encodes ds (line ++ e ++ text)
  | eof {line e tail : Bytes} (hline : IsRecord 0x01 [] line) (he : LineEnd e tail) :
      Encodes [] (line ++ e ++ tail)

/-- A line that is decoded: blanks may follow the colon, and bytes may follow the checksum. -/
structure Admits (gap body line : Bytes) : Prop where
  spelled : ∃ v w digits, Blank v ∧ Blank w ∧ Spells digits body ∧
    line = v ++ 0x3a :: (gap ++ digits) ++ w
  blank : Blank gap
  long : 5 ≤ body.length
  sum : byteSum body = 0
  within : 4 + (body.getD 0 0).toNat + 1 ≤ body.length

/-- A line that is decoded although it has a blank after its colon, or more bytes than its
length byte promises. -/
def Loose (line : Bytes) : Prop :=
  ∃ gap body, Admits gap body line ∧ (gap ≠ [] ∨ 4 + (body.getD 0 0).toNat + 1 < body.length)

section Lines

variable {typ : UInt8} {d text line gap body : Bytes}

theorem graphic_colon : Graphic 0x3a := by decide

/-- The lines that pass the checks are the admitted ones. -/
theorem intelHexBody_eq_some_iff :
    intelHexBody (trimSpace line) = some body ↔ ∃ gap, Admits gap body line := by
  constructor
  · intro h
    unfold intelHexBody at h
    split_ifs at h with hcolon
    obtain ⟨s, hs⟩ := List.isPrefixOf_iff_prefix.mp hcolon
    have hs : trimSpace line = 0x3a :: s := hs.symm
    rw [hs, List.drop_one, List.tail_cons] at h
    split at h
    · cases h
    · rename_i body' hdecode
      split_ifs at h with hlong hsum hwithin
      cases h
      have hspells := hexDecode_eq_ok_iff.mp hdecode
      obtain ⟨gap, w, hgap, hw, he⟩ := trimSpace_spec s
      -- the line is trimmed, so that no blank follows the digits
      have hwnil : w = [] :=
        RivicQ.Lib.Stripping.eq_nil_of_trim (s := line) (t := 0x3a :: (gap ++ trimSpace s)) (by
          change trimSpace line = _
          rw [hs, List.cons_append, ← he]) hw
      obtain ⟨v, w', hv, hw', hline⟩ := trimSpace_spec line
      rw [hwnil, List.append_nil] at he
      refine ⟨gap, ⟨v, w', trimSpace s, hv, hw', hspells, ?_⟩, hgap, by omega,
        Decidable.not_not.mp hsum, by omega⟩
      rw [← he, ← hs, ← hline]
  · rintro ⟨gap, ⟨v, w, digits, hv, hw, hspells, rfl⟩, hgap, hlong, hsum, hwithin⟩
    have hbody : body ≠ [] := by
      rintro rfl
      exact absurd hlong (by decide)
    have hdecode : hexDecode (gap ++ digits) = .ok body :=
      hexDecode_eq_ok_iff.mpr ((trimSpace_spelled hgap hspells hbody).symm ▸ hspells)
    rw [trimSpace_marked gap graphic_colon hv hw hspells hbody]
    have hcolon : (ascii ":").isPrefixOf (0x3a :: (gap ++ digits)) = true := rfl
    rw [intelHexBody, hcolon, if_neg (by decide), List.drop_one, List.tail_cons, hdecode]
    simp only [if_neg (Nat.not_lt.mpr hlong), hsum, ne_eq, not_true, if_false,
      if_neg (Nat.not_lt.mpr hwithin)]

/-- Any data of up to 255 bytes has a record of any type. -/
theorem exists_record (typ : UInt8) (hd : d.length ≤ 255) : ∃ text, IsRecord typ d text := by
  let sum := byteSum (UInt8.ofNat d.length :: 0 :: 0 :: typ :: d)
  have hsum : byteSum (recordBytes 0 0 typ d (-sum)) = 0 := by
    have hfold : byteSum (recordBytes 0 0 typ d (-sum)) = sum + -sum :=
      List.foldl_concat _ _ _ (UInt8.ofNat d.length :: 0 :: 0 :: typ :: d)
    rw [hfold, UInt8.add_right_neg]
  exact ⟨_, 0, 0, -sum, _, hd, hsum, spells_upperHex _, rfl⟩

theorem admits_ne_nil (h : Admits gap body line) : body ≠ [] := by
  rintro rfl
  exact absurd h.long (by decide)

theorem admits_unique {gap' body' : Bytes} (h : Admits gap body line)
    (h' : Admits gap' body' line) : gap = gap' ∧ body = body' := by
  obtain ⟨v, w, digits, hv, hw, hspells, he⟩ := h.spelled
  obtain ⟨v', w', digits', hv', hw', hspells', he'⟩ := h'.spelled
  have htrim := trimSpace_marked gap graphic_colon hv hw hspells (admits_ne_nil h)
  have htrim' := trimSpace_marked gap' graphic_colon hv' hw' hspells' (admits_ne_nil h')
  rw [← he] at htrim
  rw [← he', htrim] at htrim'
  have hsame : gap ++ digits = gap' ++ digits' := List.tail_eq_of_cons_eq htrim'
  have hdigits : digits = digits' := by
    rw [← trimSpace_spelled h.blank hspells (admits_ne_nil h), hsame,
      trimSpace_spelled h'.blank hspells' (admits_ne_nil h')]
  subst hdigits
  refine ⟨List.append_cancel_right hsame, ?_⟩
  exact Option.some.inj ((hexPairs_spells hspells).symm.trans (hexPairs_spells hspells'))

/-- What a record does to the image. -/
def recordEffect (typ : UInt8) (d : Bytes) : LineEffect :=
  if typ = 0x00 then .write d true else if typ = 0x01 then .stop else .skip

theorem intelHexEffect_recordBytes {hi lo checksum : UInt8} (hd : d.length ≤ 255) :
    intelHexEffect (recordBytes hi lo typ d checksum) = recordEffect typ d := by
  have hlength : (UInt8.ofNat d.length).toNat = d.length := by
    rw [UInt8.toNat_ofNat']
    omega
  have hdata : ((recordBytes hi lo typ d checksum).take (4 + d.length)).drop 4 = d := by
    rw [recordBytes, Nat.add_comm]
    simp only [List.take_succ_cons, List.drop_succ_cons, List.drop_zero, List.take_left]
  change (if typ = 0x00 then LineEffect.write (List.drop 4 (List.take
    (4 + (UInt8.ofNat d.length).toNat) (recordBytes hi lo typ d checksum))) true else _) = _
  rw [hlength, hdata]
  rfl

theorem length_recordBytes {hi lo checksum : UInt8} :
    (recordBytes hi lo typ d checksum).length = d.length + 5 := by
  simp [recordBytes]

theorem admits_record (h : Holds typ d line) :
    ∃ hi lo checksum, d.length ≤ 255 ∧ Admits [] (recordBytes hi lo typ d checksum) line := by
  obtain ⟨v, w, text, hv, hw, ⟨hi, lo, checksum, digits, hd, hsum, hspells, rfl⟩, rfl⟩ := h
  have hlength : (UInt8.ofNat d.length).toNat = d.length := by
    rw [UInt8.toNat_ofNat']
    omega
  refine ⟨hi, lo, checksum, hd, ⟨v, w, digits, hv, hw, hspells, rfl⟩, blank_nil, ?_, hsum, ?_⟩
  · rw [length_recordBytes]
    omega
  · change 4 + (UInt8.ofNat d.length).toNat + 1 ≤ _
    rw [length_recordBytes, hlength]
    omega

/-- An admitted line that is not loose holds a record. -/
theorem holds_admitted (h : Admits [] body line)
    (hlength : 4 + (body.getD 0 0).toNat + 1 = body.length) : ∃ typ d, Holds typ d line := by
  obtain ⟨v, w, digits, hv, hw, hspells, he⟩ := h.spelled
  match body, hlength, hspells, h.sum with
  | n :: hi :: lo :: typ :: rest, hlength, hspells, hsum =>
    have hrest : rest.length = n.toNat + 1 := by
      simp only [List.getD_cons_zero, List.length_cons] at hlength
      omega
    have hne : rest ≠ [] := List.ne_nil_of_length_eq_add_one hrest
    have hdrop : rest.dropLast.length = n.toNat := by
      rw [List.length_dropLast, hrest, Nat.add_sub_cancel]
    have hlt := n.toNat_lt
    have hbytes : recordBytes hi lo typ rest.dropLast (rest.getLast hne) =
        n :: hi :: lo :: typ :: rest := by
      rw [recordBytes, hdrop, UInt8.ofNat_toNat, List.dropLast_concat_getLast hne]
    refine ⟨typ, rest.dropLast, v, w, 0x3a :: digits, hv, hw, ?_, he⟩
    exact ⟨hi, lo, rest.getLast hne, digits, by omega, hbytes ▸ hsum, hbytes ▸ hspells, rfl⟩

theorem not_loose_holds (h : Holds typ d line) : ¬ Loose line := by
  rintro ⟨gap, body, hadmits, hloose⟩
  obtain ⟨hi, lo, checksum, hd, hrecord⟩ := admits_record h
  obtain ⟨rfl, rfl⟩ := admits_unique hadmits hrecord
  have hlength : ((recordBytes hi lo typ d checksum).getD 0 0).toNat = d.length := by
    change (UInt8.ofNat d.length).toNat = d.length
    rw [UInt8.toNat_ofNat']
    omega
  rw [hlength, length_recordBytes] at hloose
  obtain hloose | hloose := hloose
  · exact hloose rfl
  · omega

theorem not_blank_admits (h : Admits gap body line) : ¬ Blank line := by
  obtain ⟨v, w, digits, -, -, -, rfl⟩ := h.spelled
  exact not_blank_graphic (a := 0x3a) (by simp) graphic_colon

theorem intelHexLine_blank (h : Blank line) : intelHexLine (trimSpace line) = .skip :=
  if_pos (trimSpace_eq_nil_iff.mpr h)

theorem intelHexLine_admits (h : Admits gap body line) :
    intelHexLine (trimSpace line) = intelHexEffect body := by
  have hne : trimSpace line ≠ [] := fun he => not_blank_admits h (trimSpace_eq_nil_iff.mp he)
  rw [intelHexLine, if_neg hne, intelHexBody_eq_some_iff.mpr ⟨gap, h⟩]

theorem intelHexLine_holds (h : Holds typ d line) :
    intelHexLine (trimSpace line) = recordEffect typ d := by
  obtain ⟨hi, lo, checksum, hd, hadmits⟩ := admits_record h
  rw [intelHexLine_admits hadmits, intelHexEffect_recordBytes hd]

/-- A line that is neither blank, nor loose, nor holds a record is malformed to the decoder. -/
theorem intelHexLine_malformed (hblank : ¬ Blank line) (hloose : ¬ Loose line)
    (h : ∀ typ d, ¬ Holds typ d line) : intelHexLine (trimSpace line) = .malformed := by
  have hne : trimSpace line ≠ [] := fun he => hblank (trimSpace_eq_nil_iff.mp he)
  rw [intelHexLine, if_neg hne]
  cases hbody : intelHexBody (trimSpace line) with
  | none => rfl
  | some body =>
    obtain ⟨gap, hadmits⟩ := intelHexBody_eq_some_iff.mp hbody
    by_cases hexact : gap = [] ∧ 4 + (body.getD 0 0).toNat + 1 = body.length
    · obtain ⟨rfl, hlength⟩ := hexact
      obtain ⟨typ, d, hholds⟩ := holds_admitted hadmits hlength
      exact absurd hholds (h typ d)
    · have hwithin := hadmits.within
      refine absurd ⟨gap, body, hadmits, ?_⟩ hloose
      by_cases hgap : gap = []
      · have hlength : 4 + (body.getD 0 0).toNat + 1 ≠ body.length := fun h => hexact ⟨hgap, h⟩
        exact .inr (by omega)
      · exact .inl hgap

end Lines

section Texts

variable {typ : UInt8} {d text line e rest : Bytes} {ds : List Bytes}

theorem lf_not_mem (h : IsRecord typ d text) : 0x0a ∉ text := by
  obtain ⟨hi, lo, checksum, digits, -, -, hspells, rfl⟩ := h
  rw [List.mem_cons, not_or]
  exact ⟨by decide, fun hmem => lf_not_graphic (graphic_spells hspells hmem)⟩

/-- A record at the front of a text acts as its type says. -/
theorem decode_record (h : IsRecord typ d line) (he : LineEnd e rest) :
    ∃ raw, intelHexLine (trimSpace raw) = recordEffect typ d ∧
      parseIntelHex (line ++ e ++ rest) =
        decodeLines intelHexLine {} (raw :: lines rest) := by
  obtain ⟨cr, hcr, hlines⟩ := decodeLines_lineEnd intelHexLine {} rfl
    (lf_not_mem h) he
  have hholds : Holds typ d (line ++ cr) := ⟨[], cr, line, blank_nil, hcr, h, rfl⟩
  exact ⟨line ++ cr, intelHexLine_holds hholds, hlines⟩

/-- Decoding an encoding gives the image, and finds nothing malformed. -/
theorem parseIntelHex_encodes (h : Encodes ds text) :
    parseIntelHex text = ⟨ds.flatten, ds.length, 0⟩ := by
  induction h with
  | @data d line e text ds hline he _ ih =>
    obtain ⟨raw, heffect, hlines⟩ := decode_record hline he
    rw [hlines, decodeLines_write heffect]
    change Decoded.add ⟨d, 1, 0⟩ (parseIntelHex text) = _
    rw [ih, List.flatten_cons, List.length_cons, Nat.add_comm ds.length]
    rfl
  | @other typ d line e text ds htyp hline he _ ih =>
    obtain ⟨raw, heffect, hlines⟩ := decode_record hline he
    have hskip : recordEffect typ d = .skip := by
      simp only [List.mem_cons, List.not_mem_nil, or_false] at htyp
      obtain rfl | rfl | rfl | rfl := htyp <;> rfl
    rw [hlines, decodeLines_skip (heffect.trans hskip)]
    exact ih
  | @blank line e text ds hline hlf he _ ih =>
    obtain ⟨cr, hcr, hlines⟩ := decodeLines_lineEnd intelHexLine {} rfl hlf he
    have hskip := intelHexLine_blank (RivicQ.Lib.Stripping.made_append hline hcr)
    rw [parseIntelHex, hlines, decodeLines_skip hskip]
    exact ih
  | eof hline he =>
    obtain ⟨raw, heffect, hlines⟩ := decode_record hline he
    rw [hlines, decodeLines_stop heffect]
    rfl

end Texts

end RivicQ.Firmware.IntelHex
