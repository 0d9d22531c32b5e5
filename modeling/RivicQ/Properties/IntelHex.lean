import RivicQ.Firmware.IntelHex
import RivicQ.Firmware.SRecords

namespace RivicQ.Properties.SRecords

open RivicQ.Lib.Bytes RivicQ.Lib.ByteText RivicQ.Firmware.Formats RivicQ.Firmware.SRecords

/-- Bytes that are carried over make up for the last byte of each piece in turn, and nothing is
carried over at the end. -/
def Echo : Bytes → List Bytes → Prop
  | carried, [] => carried = []
  | carried, d :: ds => ∃ next, carried ++ d.dropLast = d ++ next ∧ Echo next ds

variable {header : Option Bytes} {text carried : Bytes} {ds : List Bytes}

/-- Pieces without their last bytes are shorter by one byte for each. -/
theorem length_dropLasts (h : ∀ d ∈ ds, 2 ≤ d.length) :
    (ds.map List.dropLast).flatten.length + ds.length = ds.flatten.length := by
  induction ds with
  | nil => rfl
  | cons d ds ih =>
    obtain ⟨hd, hds⟩ := List.forall_mem_cons.mp h
    have hih := ih hds
    simp only [List.map_cons, List.flatten_cons, List.length_append, List.length_cons,
      List.length_dropLast]
    omega

theorem echo_iff (h : ∀ d ∈ ds, 2 ≤ d.length) :
    carried ++ (ds.map List.dropLast).flatten = ds.flatten ↔ Echo carried ds := by
  induction ds generalizing carried with
  | nil =>
    rw [List.map_nil, List.flatten_nil, List.append_nil]
    exact Iff.rfl
  | cons d ds ih =>
    obtain ⟨hd, hds⟩ := List.forall_mem_cons.mp h
    simp only [List.map_cons, List.flatten_cons, Echo]
    constructor
    · intro he
      -- the bytes carried over are as many as the pieces that are left
      have hlength := congrArg List.length he
      have hrest := length_dropLasts hds
      simp only [List.length_append, List.length_dropLast] at hlength
      rw [← List.append_assoc] at he
      have hlong : d.length ≤ (carried ++ d.dropLast).length := by
        rw [List.length_append, List.length_dropLast]
        omega
      obtain ⟨next, hnext⟩ : d <+: carried ++ d.dropLast :=
        List.prefix_of_prefix_length_le ⟨ds.flatten, he.symm⟩ (List.prefix_append _ _) hlong
      rw [← hnext, List.append_assoc] at he
      exact ⟨next, hnext.symm, (ih hds).mp (List.append_cancel_left he)⟩
    · rintro ⟨next, hnext, hecho⟩
      rw [← List.append_assoc, hnext, List.append_assoc, (ih hds).mpr hecho]

/-- A file decodes to its image if and only if each data record has two bytes or more and the bytes
of the header but the last make up for the ones that the data records lose. -/
theorem srec_decoded (header : Option Bytes) (ds : List Bytes) (text : Bytes)
    (h : Renders header ds text) :
    parseSREC text = ⟨ds.flatten, ds.length, 0⟩ ↔
      (∀ d ∈ ds, 2 ≤ d.length) ∧ Echo (header.getD []).dropLast ds := by
  rw [parseSREC_renders h, Decoded.mk.injEq, List.countP_eq_length]
  simp only [and_true, decide_eq_true_eq]
  constructor
  · rintro ⟨himage, hlong⟩
    exact ⟨hlong, (echo_iff hlong).mp himage⟩
  · rintro ⟨hlong, hecho⟩
    exact ⟨(echo_iff hlong).mpr hecho, hlong⟩

/-- The header makes up for the one byte that is lost. -/
theorem srec_decoded_echo :
    parseSREC (ascii "S0050000414178" ++ [0x0a] ++ (ascii "S1051000414168" ++ [0x0a] ++ []))
      = ⟨ascii "AA", 1, 0⟩ := by
  have hheader : IsRecord 0x30 2 (ascii "AA") (ascii "S0050000414178") :=
    ⟨[0x00, 0x00], 0x78, ascii "050000414178", rfl, by decide, by decide,
      spells_hexPairs (by decide), rfl⟩
  have hdata : IsRecord 0x31 2 (ascii "AA") (ascii "S1051000414168") :=
    ⟨[0x10, 0x00], 0x68, ascii "051000414168", rfl, by decide, by decide,
      spells_hexPairs (by decide), rfl⟩
  refine (srec_decoded (some (ascii "AA")) [ascii "AA"] _ (.headed hheader (.inl rfl)
    (.data (by decide) hdata (.inl rfl) .nil))).mpr ⟨by decide, ?_⟩
  exact ⟨[], by decide, rfl⟩

/-- Without a header there is nothing to make up for a lost byte. -/
theorem srec_headless (h : Renders none ds text) :
    parseSREC text = ⟨ds.flatten, ds.length, 0⟩ ↔ ds = [] := by
  rw [parseSREC_renders h, Decoded.mk.injEq, List.countP_eq_length]
  simp only [and_true, decide_eq_true_eq, Option.getD_none, List.dropLast_nil, List.nil_append]
  constructor
  · rintro ⟨himage, hlong⟩
    have hlength := length_dropLasts hlong
    rw [himage] at hlength
    exact List.length_eq_zero_iff.mp (by omega)
  · rintro rfl
    exact ⟨rfl, List.forall_mem_nil _⟩

theorem last_byte_lost :
    ¬ ∀ header ds text, Renders header ds text →
      parseSREC text = ⟨ds.flatten, ds.length, 0⟩ := by
  intro h
  have hdata : IsRecord 0x31 2 (ascii "ABCD") (ascii "S107100041424344DE") :=
    ⟨[0x10, 0x00], 0xde, ascii "07100041424344DE", rfl, by decide, by decide,
      spells_hexPairs (by decide), rfl⟩
  have hfile : Renders none [ascii "ABCD"] (ascii "S107100041424344DE" ++ [0x0a] ++ []) :=
    .bare (.data (by decide) hdata (.inl rfl) .nil)
  exact absurd (h none [ascii "ABCD"] _ hfile) (by decide)

end RivicQ.Properties.SRecords

namespace RivicQ.Properties.IntelHex

open RivicQ.Lib.Bytes RivicQ.Lib.ByteText RivicQ.Firmware.Formats RivicQ.Firmware.IntelHex

/-- What the lines of a text say: the data of its data records in turn, and each line before the
first end-of-file record that is neither blank nor a record is malformed. -/
inductive Reads : List Bytes → Decoded → Prop where
  | nil : Reads [] ⟨[], 0, 0⟩
  | blank {line : Bytes} {ls : List Bytes} {r : Decoded} (hline : Blank line)
      (hrest : Reads ls r) : Reads (line :: ls) r
  | data {d line image : Bytes} {ls : List Bytes} {n bad : Nat} (hline : Holds 0x00 d line)
      (hrest : Reads ls ⟨image, n, bad⟩) : Reads (line :: ls) ⟨d ++ image, n + 1, bad⟩
  | eof {d line : Bytes} {ls : List Bytes} (hline : Holds 0x01 d line) :
      Reads (line :: ls) ⟨[], 0, 0⟩
  | other {typ : UInt8} {d line : Bytes} {ls : List Bytes} {r : Decoded} (hdata : typ ≠ 0x00)
      (heof : typ ≠ 0x01) (hline : Holds typ d line) (hrest : Reads ls r) : Reads (line :: ls) r
  | malformed {line image : Bytes} {ls : List Bytes} {n bad : Nat} (hblank : ¬ Blank line)
      (hline : ∀ typ d, ¬ Holds typ d line) (hrest : Reads ls ⟨image, n, bad⟩) :
      Reads (line :: ls) ⟨image, n, bad + 1⟩

/-- No line up to the first end-of-file record is loose. -/
def Strict : List Bytes → Prop
  | [] => True
  | line :: ls => ¬ Loose line ∧ ((∃ d, Holds 0x01 d line) ∨ Strict ls)

variable {line : Bytes} {ls : List Bytes} {r : Decoded}

theorem not_loose_blank (h : Blank line) : ¬ Loose line := by
  rintro ⟨gap, body, hadmits, -⟩
  exact not_blank_admits hadmits h

/-- A line that is admitted adds nothing to the malformed ones. -/
theorem bad_loose (h : Loose line) (ls : List Bytes) :
    (decodeLines intelHexLine {} (line :: ls)).bad ≤ (decodeLines intelHexLine {} ls).bad := by
  obtain ⟨gap, body, hadmits, -⟩ := h
  have hline := intelHexLine_admits hadmits
  cases heffect : intelHexEffect body with
  | skip => rw [decodeLines_skip (hline.trans heffect)]
  | stop =>
    rw [decodeLines_stop (hline.trans heffect)]
    exact Nat.zero_le _
  | write bytes record =>
    rw [decodeLines_write (hline.trans heffect)]
    exact (Nat.zero_add _).le
  | malformed =>
    simp only [intelHexEffect] at heffect
    split_ifs at heffect

/-- The decoder never finds more malformed lines than there are, and finds fewer unless the text is
strict. -/
theorem bad_reads (h : Reads ls r) :
    (decodeLines intelHexLine {} ls).bad ≤ r.bad ∧
      (¬ Strict ls → (decodeLines intelHexLine {} ls).bad < r.bad) := by
  induction h with
  | nil => exact ⟨Nat.le_refl _, fun h => absurd trivial h⟩
  | blank hline _ ih =>
    rw [decodeLines_skip (intelHexLine_blank hline)]
    exact ⟨ih.1, fun h => ih.2 fun hs => h ⟨not_loose_blank hline, .inr hs⟩⟩
  | data hline _ ih =>
    rw [decodeLines_write (intelHexLine_holds hline)]
    simp only [Decoded.add, Nat.zero_add]
    exact ⟨ih.1, fun h => ih.2 fun hs => h ⟨not_loose_holds hline, .inr hs⟩⟩
  | eof hline =>
    rw [decodeLines_stop (intelHexLine_holds hline)]
    exact ⟨Nat.le_refl _, fun h => absurd ⟨not_loose_holds hline, .inl ⟨_, hline⟩⟩ h⟩
  | @other typ d line ls r hdata heof hline _ ih =>
    have hskip : recordEffect typ d = .skip := by rw [recordEffect, if_neg hdata, if_neg heof]
    rw [decodeLines_skip ((intelHexLine_holds hline).trans hskip)]
    exact ⟨ih.1, fun h => ih.2 fun hs => h ⟨not_loose_holds hline, .inr hs⟩⟩
  | @malformed line image ls n bad hblank hline _ ih =>
    by_cases hloose : Loose line
    · have hbad := (bad_loose hloose ls).trans ih.1
      exact ⟨Nat.le_succ_of_le hbad, fun _ => Nat.lt_succ_of_le hbad⟩
    · rw [decodeLines_malformed (intelHexLine_malformed hblank hloose hline)]
      have hle : (decodeLines intelHexLine {} ls).bad ≤ bad := ih.1
      refine ⟨?_, fun h => ?_⟩
      · change 1 + (decodeLines intelHexLine {} ls).bad ≤ bad + 1
        omega
      · have hlt : (decodeLines intelHexLine {} ls).bad < bad := ih.2 fun hs => h ⟨hloose, .inr hs⟩
        change 1 + (decodeLines intelHexLine {} ls).bad < bad + 1
        omega

theorem reads_strict (h : Strict ls) : Reads ls (decodeLines intelHexLine {} ls) := by
  induction ls with
  | nil => exact .nil
  | cons line ls ih =>
    obtain ⟨hloose, h⟩ := h
    by_cases heof : ∃ d, Holds 0x01 d line
    · obtain ⟨d, hline⟩ := heof
      rw [decodeLines_stop (intelHexLine_holds hline)]
      exact .eof hline
    have hrest := ih (h.resolve_left heof)
    by_cases hblank : Blank line
    · rw [decodeLines_skip (intelHexLine_blank hblank)]
      exact .blank hblank hrest
    by_cases hholds : ∃ typ d, Holds typ d line
    · obtain ⟨typ, d, hline⟩ := hholds
      have hstep := intelHexLine_holds hline
      by_cases hdata : typ = 0x00
      · subst hdata
        rw [decodeLines_write hstep, Decoded.add, Nat.add_comm, Nat.zero_add]
        exact .data hline hrest
      · have hnot : typ ≠ 0x01 := fun h => heof ⟨d, h ▸ hline⟩
        have hskip : recordEffect typ d = .skip := by rw [recordEffect, if_neg hdata, if_neg hnot]
        rw [decodeLines_skip (hstep.trans hskip)]
        exact .other hdata hnot hline hrest
    · have hline : ∀ typ d, ¬ Holds typ d line := fun typ d h => hholds ⟨typ, d, h⟩
      rw [decodeLines_malformed (intelHexLine_malformed hblank hloose hline), Decoded.add,
        List.nil_append, Nat.zero_add, Nat.add_comm]
      exact .malformed hblank hline hrest

/-- Decoding undoes encoding; and a text is decoded as its lines say if and only if no line up to
the first end-of-file record is loose. -/
theorem intelHex_decoded (text : Bytes) :
    (∀ ds, Encodes ds text → parseIntelHex text = ⟨ds.flatten, ds.length, 0⟩) ∧
    (Reads (lines text) (parseIntelHex text) ↔ Strict (lines text)) := by
  refine ⟨fun ds => parseIntelHex_encodes, fun h => ?_, reads_strict⟩
  by_contra hstrict
  exact Nat.lt_irrefl _ ((bad_reads h).2 hstrict)

theorem intelHex_decoded_four :
    parseIntelHex (ascii ":0410000041424344e2" ++ [0x0d, 0x0a] ++ (ascii ":00000001FF" ++ [] ++ []))
      = ⟨ascii "ABCD", 1, 0⟩ := by
  have hdata : IsRecord 0x00 (ascii "ABCD") (ascii ":0410000041424344e2") :=
    ⟨0x10, 0x00, 0xe2, ascii "0410000041424344e2", by decide, by decide,
      spells_hexPairs (by decide), rfl⟩
  have heof : IsRecord 0x01 [] (ascii ":00000001FF") :=
    ⟨0x00, 0x00, 0xff, ascii "00000001FF", by decide, by decide, spells_hexPairs (by decide), rfl⟩
  exact (intelHex_decoded _).1 [ascii "ABCD"]
    (.data hdata (.inr (.inl rfl)) (.eof heof (.inr (.inr ⟨rfl, rfl⟩))))

/-- A record of one byte, and a second byte that its length does not promise. -/
def overlong : Bytes := ascii ":010000004100BE"

theorem loose_overlong : Loose overlong := by
  have hspells : Spells (ascii "010000004100BE") [0x01, 0, 0, 0, 0x41, 0, 0xbe] :=
    spells_hexPairs (by decide)
  refine ⟨[], [0x01, 0, 0, 0, 0x41, 0, 0xbe], ⟨?_, blank_nil, ?_, ?_, ?_⟩, ?_⟩
  · exact ⟨[], [], ascii "010000004100BE", blank_nil, blank_nil, hspells, rfl⟩
  all_goals decide

theorem overlong_passes :
    ¬ ((∀ ds text, Encodes ds text → parseIntelHex text = ⟨ds.flatten, ds.length, 0⟩) ∧
      ∀ text, Reads (lines text) (parseIntelHex text)) := by
  rintro ⟨-, hreads⟩
  have hlines : lines overlong = [overlong] := by decide
  have hread := hreads overlong
  have hstrict : ¬ Strict (lines overlong) := by
    rw [hlines]
    exact fun h => h.1 loose_overlong
  exact Nat.lt_irrefl _ ((bad_reads hread).2 hstrict)

end RivicQ.Properties.IntelHex
