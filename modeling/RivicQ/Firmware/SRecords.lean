import RivicQ.Firmware.Formats

namespace RivicQ.Firmware.SRecords

open RivicQ.Lib.Bytes RivicQ.Lib.ByteText RivicQ.Firmware.Formats

/-- The bytes of a record: the number of bytes that follow, an address, the data and a checksum. -/
def recordBytes (addr d : Bytes) (checksum : UInt8) : Bytes :=
  UInt8.ofNat (addr.length + d.length + 1) :: (addr ++ d ++ [checksum])

/-- The letter S, the type and the digits of a record, with an address of some width. -/
def IsRecord (typ : UInt8) (width : Nat) (d text : Bytes) : Prop :=
  ∃ addr checksum digits, addr.length = width ∧ width + d.length + 1 ≤ 255 ∧
    byteSum (recordBytes addr d checksum) = 0xff ∧ Spells digits (recordBytes addr d checksum) ∧
    text = 0x53 :: typ :: digits

/-- The types of data records, S1 to S3, and the widths of their addresses. -/
def dataTypes : List (UInt8 × Nat) := [(0x31, 2), (0x32, 3), (0x33, 4)]

/-- S5, which counts the records, and S7 to S9, which end a file. -/
def closingTypes : List (UInt8 × Nat) := [(0x35, 2), (0x37, 4), (0x38, 3), (0x39, 2)]

/-- A data record for each piece of an image, with other records between them. -/
inductive Body : List Bytes → Bytes → Prop where
  | nil : Body [] []
  | data {typ : UInt8} {width : Nat} {d line e text : Bytes} {ds : List Bytes}
      (htyp : (typ, width) ∈ dataTypes) (hline : IsRecord typ width d line)
      (he : LineEnd e text) (hrest : Body ds text) : Body (d :: ds) (line ++ e ++ text)
  | closing {typ : UInt8} {width : Nat} {line e text : Bytes} {ds : List Bytes}
      (htyp : (typ, width) ∈ closingTypes) (hline : IsRecord typ width [] line)
      (he : LineEnd e text) (hrest : Body ds text) : Body ds (line ++ e ++ text)

/-- A file with or without a header record, by the content of the header. -/
inductive Renders : Option Bytes → List Bytes → Bytes → Prop where
  | bare {text : Bytes} {ds : List Bytes} (hbody : Body ds text) : Renders none ds text
  | headed {h line e text : Bytes} {ds : List Bytes} (hline : IsRecord 0x30 2 h line)
      (he : LineEnd e text) (hbody : Body ds text) : Renders (some h) ds (line ++ e ++ text)

section Records

variable {typ checksum : UInt8} {width : Nat} {addr d line e text rest : Bytes} {ds : List Bytes}

theorem length_recordBytes :
    (recordBytes addr d checksum).length = addr.length + d.length + 1 + 1 := by
  simp only [recordBytes, List.length_cons, List.length_append, List.length_nil]

theorem count_recordBytes (h : addr.length + d.length + 1 ≤ 255) :
    ((recordBytes addr d checksum).getD 0 0).toNat = addr.length + d.length + 1 := by
  change (UInt8.ofNat (addr.length + d.length + 1)).toNat = _
  rw [UInt8.toNat_ofNat']
  omega

/-- The decoder takes the data of a record without the last byte, and passes over records of less
than two data bytes. -/
theorem srecEffect_recordBytes (hwidth : addr.length = addrLen typ)
    (hd : addr.length + d.length + 1 ≤ 255) :
    srecEffect typ (recordBytes addr d checksum) =
      if 2 ≤ d.length then .write d.dropLast (decide (typ ∈ ascii "123")) else .skip := by
  have hslice : ((recordBytes addr d checksum).take (addr.length + d.length)).drop
      (1 + addr.length) = d.dropLast := by
    rcases List.eq_nil_or_concat d with rfl | ⟨init, b, hconcat⟩
    · apply List.drop_eq_nil_of_le
      rw [List.length_take, List.length_nil]
      omega
    · rw [List.concat_eq_append] at hconcat
      subst hconcat
      have htake : addr.length + (init ++ [b]).length = (addr ++ init).length + 1 := by
        simp only [List.length_append, List.length_singleton]
        omega
      have hbytes : addr ++ (init ++ [b]) ++ [checksum] = (addr ++ init) ++ [b, checksum] := by
        simp only [List.append_assoc, List.cons_append, List.nil_append]
      rw [recordBytes, htake, hbytes, List.take_succ_cons, List.take_left, Nat.add_comm 1,
        List.drop_succ_cons, List.drop_left, List.dropLast_concat]
  simp only [srecEffect, count_recordBytes hd, ← hwidth, length_recordBytes]
  have hend : addr.length + d.length + 1 - 1 = addr.length + d.length := rfl
  rw [hend, hslice]
  by_cases hlong : 2 ≤ d.length
  · rw [if_pos hlong, if_pos ⟨by omega, by omega⟩]
  · rw [if_neg hlong, if_neg (by omega)]

theorem graphic_s : Graphic 0x53 := by decide

theorem srecLine_record {cr : Bytes} (htyp : width = addrLen typ) (hcr : Blank cr)
    (h : IsRecord typ width d text) :
    srecLine (trimSpace (text ++ cr)) =
      if 2 ≤ d.length then .write d.dropLast (decide (typ ∈ ascii "123")) else .skip := by
  obtain ⟨addr, checksum, digits, hwidth, hd, hsum, hspells, rfl⟩ := h
  rw [← hwidth] at hd
  have hne : recordBytes addr d checksum ≠ [] := List.cons_ne_nil _ _
  have htrim : trimSpace (0x53 :: typ :: digits ++ cr) = 0x53 :: typ :: digits :=
    trimSpace_marked [typ] graphic_s blank_nil hcr hspells hne
  have hdecode : hexDecode digits = .ok (recordBytes addr d checksum) :=
    hexDecode_eq_ok_iff.mpr ((trimSpace_spelled blank_nil hspells hne).symm ▸ hspells)
  have hlength := length_spells hspells
  rw [length_recordBytes] at hlength
  have hlong : ¬ ((0x53 :: typ :: digits).length < 4 ∨
      (0x53 :: typ :: digits).getD 0 0 ≠ (0x53 : UInt8)) := by
    rw [not_or, List.length_cons, List.length_cons]
    exact ⟨by omega, fun h => h rfl⟩
  have hbody : srecBody (0x53 :: typ :: digits) = some (recordBytes addr d checksum) := by
    have hall : (recordBytes addr d checksum).take (addr.length + d.length + 1 + 1) =
        recordBytes addr d checksum := List.take_of_length_le length_recordBytes.le
    rw [srecBody, if_neg hlong]
    simp only [List.drop_succ_cons, List.drop_zero, hdecode, count_recordBytes hd, length_recordBytes, hall, hsum, ne_eq, not_true,
      if_false, if_neg (Nat.lt_irrefl _), if_neg (Nat.not_lt.mpr (Nat.le_add_left 1 _))]
  rw [htrim, srecLine, if_neg (List.cons_ne_nil _ _), hbody]
  exact srecEffect_recordBytes (hwidth.trans htyp) hd

theorem lf_not_mem (htyp : typ ≠ 0x0a) (h : IsRecord typ width d text) : 0x0a ∉ text := by
  obtain ⟨addr, checksum, digits, -, -, -, hspells, rfl⟩ := h
  simp only [List.mem_cons, not_or]
  exact ⟨by decide, htyp.symm, fun hmem => lf_not_graphic (graphic_spells hspells hmem)⟩

/-- What a record of some type adds to the image. -/
def taken (typ : UInt8) (d : Bytes) : Decoded :=
  ⟨d.dropLast, if 2 ≤ d.length ∧ typ ∈ ascii "123" then 1 else 0, 0⟩

/-- A record at the front of a text adds its data without the last byte. -/
theorem parseSREC_record (hlf : typ ≠ 0x0a) (htyp : width = addrLen typ)
    (h : IsRecord typ width d line) (he : LineEnd e rest) :
    parseSREC (line ++ e ++ rest) = (taken typ d).add (parseSREC rest) := by
  obtain ⟨cr, hcr, hlines⟩ := decodeLines_lineEnd srecLine {} rfl
    (lf_not_mem hlf h) he
  have hline := srecLine_record htyp hcr h
  rw [parseSREC, hlines]
  by_cases hlong : 2 ≤ d.length
  · rw [if_pos hlong] at hline
    rw [decodeLines_write hline, taken]
    simp only [hlong, true_and, decide_eq_true_eq]
    rfl
  · rw [if_neg hlong] at hline
    have hnil : d.dropLast = [] := by
      apply List.eq_nil_of_length_eq_zero
      rw [List.length_dropLast]
      omega
    rw [decodeLines_skip hline, taken, hnil, if_neg fun h => hlong h.1]
    exact (Decoded.empty_add _).symm

end Records

section Files

variable {header : Option Bytes} {text : Bytes} {ds : List Bytes}

/-- What the decoder makes of the data records of a file. -/
theorem parseSREC_body (h : Body ds text) :
    parseSREC text = ⟨(ds.map List.dropLast).flatten, ds.countP (2 ≤ ·.length), 0⟩ := by
  induction h with
  | nil => decide
  | @data typ width d line e text ds htyp hline he _ ih =>
    obtain ⟨hlf, hwidth, hcounted⟩ : typ ≠ 0x0a ∧ width = addrLen typ ∧ typ ∈ ascii "123" := by
      simp only [dataTypes, List.mem_cons, Prod.mk.injEq, List.not_mem_nil, or_false] at htyp
      obtain ⟨rfl, rfl⟩ | ⟨rfl, rfl⟩ | ⟨rfl, rfl⟩ := htyp <;> decide
    rw [parseSREC_record hlf hwidth hline he, ih, taken, Decoded.add]
    simp only [hcounted, and_true, List.map_cons, List.flatten_cons, List.countP_cons,
      decide_eq_true_eq, Nat.add_comm, Nat.add_zero]
  | @closing typ width line e text ds htyp hline he _ ih =>
    obtain ⟨hlf, hwidth⟩ : typ ≠ 0x0a ∧ width = addrLen typ := by
      simp only [closingTypes, List.mem_cons, Prod.mk.injEq, List.not_mem_nil, or_false] at htyp
      obtain ⟨rfl, rfl⟩ | ⟨rfl, rfl⟩ | ⟨rfl, rfl⟩ | ⟨rfl, rfl⟩ := htyp <;> decide
    rw [parseSREC_record hlf hwidth hline he, ih]
    exact Decoded.empty_add _

/-- The content of a header is decoded in front of the image, and each record loses its last
byte. -/
theorem parseSREC_renders (h : Renders header ds text) :
    parseSREC text = ⟨(header.getD []).dropLast ++ (ds.map List.dropLast).flatten,
      ds.countP (2 ≤ ·.length), 0⟩ := by
  cases h with
  | bare hbody => exact parseSREC_body hbody
  | @headed h line e text ds hline he hbody =>
    rw [parseSREC_record (by decide) rfl hline he, parseSREC_body hbody, taken,
      if_neg fun h => absurd h.2 (by decide)]
    simp only [Decoded.add, Option.getD_some, Nat.zero_add]

end Files

end RivicQ.Firmware.SRecords
