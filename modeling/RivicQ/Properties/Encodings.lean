import RivicQ.Firmware.Analysis
import RivicQ.Firmware.IntelHex

namespace RivicQ.Properties.Encodings

open RivicQ.Lib.Bytes RivicQ.Lib.ByteText RivicQ.Cryptoscan.Detect RivicQ.Certeng.Certificates
open RivicQ.Firmware.Formats RivicQ.Firmware.IntelHex RivicQ.Firmware.Reports
open RivicQ.Firmware.Analysis

/-- An Intel HEX file of pieces of an image: data records for them, other records between, and an
end-of-file record. -/
inductive Records : List Bytes → Bytes → Prop where
  | data {d line e text : Bytes} {ds : List Bytes} (hline : IsRecord 0x00 d line)
      (he : LineEnd e text) (hrest : Records ds text) : Records (d :: ds) (line ++ e ++ text)
  | other {typ : UInt8} {d line e text : Bytes} {ds : List Bytes}
      (htyp : typ ∈ [0x02, 0x03, 0x04, 0x05]) (hline : IsRecord typ d line)
      (he : LineEnd e text) (hrest : Records ds text) : Records ds (line ++ e ++ text)
  | eof {line e : Bytes} (hline : IsRecord 0x01 [] line) (he : LineEnd e []) :
      Records [] (line ++ e ++ [])

/-- What the decoders of the standard library are relied on for: PEM blocks have a begin line, and
a certificate is an ASN.1 sequence. -/
structure Documented (dec : Decoders) : Prop where
  pemDecode : ∀ s, ¬ ascii "-----BEGIN" <:+: s → dec.pemDecode s = none
  parseCertificate : ∀ s, s.head? ≠ some 0x30 → dec.parseCertificate s = none

section Files

variable {typ : UInt8} {d line e text rest : Bytes} {ds : List Bytes}

theorem records_encodes (h : Records ds text) : Encodes ds text := by
  induction h with
  | data hline he _ ih => exact .data hline he ih
  | other htyp hline he _ ih => exact .other htyp hline he ih
  | eof hline he => exact .eof hline he

theorem dash_not_mem_record (h : IsRecord typ d line) : 0x2d ∉ line := by
  obtain ⟨hi, lo, checksum, digits, -, -, hspells, rfl⟩ := h
  have hdigits : ∀ bytes digits : Bytes, Spells digits bytes → 0x2d ∉ digits := by
    intro bytes digits h
    have hnot : ∀ v, ¬ HexDigit 0x2d v := by
      intro v hv
      have htwo : (0x2d : UInt8).toNat = 45 := rfl
      unfold HexDigit at hv
      omega
    induction h with
    | nil => exact List.not_mem_nil
    | cons hh hl _ ih =>
      simp only [List.mem_cons, not_or]
      exact ⟨fun h => hnot _ (h ▸ hh), fun h => hnot _ (h ▸ hl), ih⟩
  rw [List.mem_cons, not_or]
  exact ⟨by decide, hdigits _ _ hspells⟩

theorem dash_not_mem_lineEnd (he : LineEnd e rest) : 0x2d ∉ e := by
  obtain rfl | rfl | ⟨rfl, -⟩ := he <;> decide

/-- No text of records has a dash. -/
theorem dash_not_mem (h : Records ds text) : 0x2d ∉ text := by
  induction h with
  | data hline he _ ih | other _ hline he _ ih =>
    simp only [List.mem_append, not_or]
    exact ⟨⟨dash_not_mem_record hline, dash_not_mem_lineEnd he⟩, ih⟩
  | eof hline he =>
    simp only [List.mem_append, not_or]
    exact ⟨⟨dash_not_mem_record hline, dash_not_mem_lineEnd he⟩, List.not_mem_nil⟩

/-- A record has a colon and ten digits or more. -/
theorem front_record (h : IsRecord typ d line) (rest : Bytes) :
    ∃ ten tail, line ++ rest = 0x3a :: ten ++ tail ∧ ten.length = 10 ∧ ∀ c ∈ ten, Graphic c := by
  obtain ⟨hi, lo, checksum, digits, -, -, hspells, rfl⟩ := h
  have hlength := length_spells hspells
  rw [length_recordBytes] at hlength
  refine ⟨digits.take 10, digits.drop 10 ++ rest, ?_, ?_, ?_⟩
  · rw [List.cons_append, List.cons_append, ← List.append_assoc, List.take_append_drop]
  · rw [List.length_take]
    omega
  · exact fun c hc => graphic_spells hspells (List.mem_of_mem_take hc)

theorem front_records (h : Records ds text) :
    ∃ ten tail, text = 0x3a :: ten ++ tail ∧ ten.length = 10 ∧ ∀ c ∈ ten, Graphic c := by
  cases h with
  | data hline _ _ | other _ hline _ _ | eof hline _ =>
    rw [List.append_assoc]
    exact front_record hline _

end Files

section Detection

variable {text : Bytes} {ds : List Bytes}

theorem looksLikeIntelHex_records (h : Records ds text) : looksLikeIntelHex text = true := by
  obtain ⟨ten, tail, rfl, hten, hgraphic⟩ := front_records h
  have hg : ∀ c ∈ 0x3a :: ten, Graphic c := List.forall_mem_cons.mpr ⟨graphic_colon, hgraphic⟩
  have hlf : 0x0a ∉ 0x3a :: ten := fun h => lf_not_graphic (hg _ h)
  have htake : (0x3a :: ten ++ tail).take 256 = 0x3a :: ten ++ tail.take 245 := by
    rw [List.take_append, List.length_cons, hten, List.take_of_length_le (by simp [hten])]
  obtain ⟨front, rest, hlines⟩ := lines_front hlf (tail.take 245)
  obtain ⟨u, htrim⟩ := trimSpace_front (List.cons_ne_nil _ _) hg front
  have hfirst : firstLine (0x3a :: ten ++ tail) = some (0x3a :: ten ++ u) := by
    rw [firstLine, htake, hlines, List.map_cons, htrim]
    exact List.find?_cons_of_pos (decide_eq_true (List.cons_ne_nil _ _))
  rw [looksLikeIntelHex, hfirst]
  have hlong : (0x3a :: ten ++ u).length ≥ 11 := by
    rw [List.length_append, List.length_cons, hten]
    omega
  simp only [hlong, decide_true, Bool.and_true]
  rfl

/-- Whatever its name, a text of records is taken for Intel HEX. -/
theorem detectFormat_records (x : Setup) (name : String) (h : Records ds text) :
    detectFormat x.cm name text = .ihex := by
  have hdash := dash_not_mem h
  have hlooks := looksLikeIntelHex_records h
  obtain ⟨ten, tail, rfl, hten, -⟩ := front_records h
  obtain ⟨c, ten, rfl⟩ : ∃ c ten', ten = c :: ten' :=
    List.exists_cons_of_ne_nil fun h => by simp [h] at hten
  have hmark : ¬ ascii "-----BEGIN CERTIFICATE-----" <:+: 0x3a :: (c :: ten) ++ tail :=
    fun hin => hdash (hin.subset (by decide))
  have hpem : isPEMOnly x.cm name (0x3a :: (c :: ten) ++ tail) = false := by
    have hbegin : (ascii "-----BEGIN ").isPrefixOf
        (trimPadding (0x3a :: (c :: ten) ++ tail)) = false := rfl
    rw [isPEMOnly, hbegin, if_neg Bool.false_ne_true, decide_eq_false hmark, ite_self]
  have helf : ¬ (0x3a :: (c :: ten) ++ tail).take 4 = 0x7f :: ascii "ELF" := fun h =>
    absurd (List.cons.inj h).1 (by decide)
  have hzip : ¬ ((0x3a :: (c :: ten) ++ tail).length ≥ 4 ∧
      (0x3a :: (c :: ten) ++ tail).take 2 = ascii "PK" ∧
      (0x3a :: (c :: ten) ++ tail).getD 2 0 ∈ [(0x03 : UInt8), 0x05, 0x07]) := fun h =>
    absurd (List.cons.inj h.2.1).1 (by decide)
  have hgzip : ¬ (0x3a :: (c :: ten) ++ tail).take 2 = [0x1f, 0x8b] := fun h =>
    absurd (List.cons.inj h).1 (by decide)
  rw [detectFormat, if_neg helf, if_neg hzip, if_neg hgzip, hpem, if_neg Bool.false_ne_true,
    hlooks, if_pos rfl]

end Detection

/-- Every image has a file, in pieces of up to 255 bytes. -/
theorem exists_records {ds : List Bytes} (h : ∀ d ∈ ds, d.length ≤ 255) :
    ∃ text, Records ds text := by
  induction ds with
  | nil =>
    obtain ⟨line, hline⟩ := exists_record 0x01 (d := []) (by decide)
    exact ⟨_, .eof hline (.inl rfl)⟩
  | cons d ds ih =>
    obtain ⟨hd, hds⟩ := List.forall_mem_cons.mp h
    obtain ⟨text, htext⟩ := ih hds
    obtain ⟨line, hline⟩ := exists_record 0x00 hd
    exact ⟨_, .data hline (.inl rfl) htext⟩

section Reports

variable {x : Setup} {image text data : Bytes} {ds : List Bytes}

theorem extractFromBytes_records (hdec : Documented x.decoders) (name : String)
    (h : Records ds text) : extractFromBytes x.decoders text name = [] := by
  have hdash := dash_not_mem h
  have hpem : x.decoders.pemDecode text = none :=
    hdec.pemDecode text fun hin => hdash (hin.subset (by decide))
  have hmark : ¬ beginMark <:+: text := fun hin => hdash (hin.subset (by decide))
  have hder : x.decoders.parseCertificate text = none := by
    obtain ⟨ten, tail, rfl, -⟩ := front_records h
    exact hdec.parseCertificate _ (by simp)
  rw [extractFromBytes_pem_none hpem hmark, parseDER, hder]
  rfl

/-- The report of an Intel HEX file is about the whole image, without its certificates. -/
theorem report_encoded (hdec : Documented x.decoders) (name : String) (h : Records ds text) :
    ∃ encoded, analyzeBytes x name text = .ok encoded ∧
      encoded.named = detectedNames x ds.flatten := by
  have hformat := detectFormat_records x name h
  have hmembers : members x (detectFormat x.cm name text) name text = none := by rw [hformat]; rfl
  refine ⟨_, analyzeDepth_image hmembers, ?_⟩
  have hihex : (newReport x name text).format = .ihex := hformat
  rw [named_analyzeImage ds.flatten rfl]
  · rw [hihex]
    change imageNames x ds.flatten (extractFromBytes x.decoders text name) = _
    rw [extractFromBytes_records hdec name h, imageNames_nil]
  · rw [hihex]
    change extractStrings 4 200000 (parseIntelHex text).image = _
    rw [parseIntelHex_encodes (records_encodes h)]

end Reports

/-- The reports of an image and of an Intel HEX file of it name the same if and only if no
certificate is found in the first 64 MiB of the image and detection finds the same names there as
in all of it. -/
theorem encoding_transparent (x : Setup) (hdec : Documented x.decoders) (name name' : String)
    (ds : List Bytes) (text : Bytes) (h : Records ds text)
    (himage : detectFormat x.cm name ds.flatten ∈ [Format.bin, Format.unknown]) :
    ∃ raw encoded, analyzeBytes x name ds.flatten = .ok raw ∧
      analyzeBytes x name' text = .ok encoded ∧
      (encoded.named = raw.named ↔
        extractFromBytes x.decoders (ds.flatten.take maxImage) name = [] ∧
        detectedNames x (ds.flatten.take maxImage) = detectedNames x ds.flatten) := by
  obtain ⟨raw, hraw, hnamed⟩ := report_raw x.limits.maxArchiveDepth name himage
  obtain ⟨encoded, hencoded, hnamed'⟩ := report_encoded hdec name' h
  refine ⟨raw, encoded, hraw, hencoded, ?_⟩
  rw [hnamed, hnamed', eq_imageNames_iff]

/-- The default limits, no rules, and some decoders. -/
def setup (decoders : Decoders) : Setup where
  cm := RivicQ.Lib.GoStrings.asciiCase
  decoders := decoders
  readers := { unzip := fun _ => .error "zip: not a valid zip file"
               untar := fun _ => ([], some "unexpected EOF")
               gunzip := fun _ => .error "gzip: invalid header" }
  elf := fun _ => .error "bad magic number"
  profile := {}
  limits := { maxDecompressedBytes := 256 <<< 20, maxArchiveEntries := 2048, maxArchiveDepth := 4 }

/-- Decoders that meet no certificate. -/
def noCertificates : Decoders where
  pemDecode _ := none
  parseCertificate _ := none
  sha256 _ := []

theorem encoding_transparent_aes : ∃ text raw encoded,
    analyzeBytes (setup noCertificates) "fw.bin" (ascii "AES-256") = .ok raw ∧
    analyzeBytes (setup noCertificates) "fw.hex" text = .ok encoded ∧
    encoded.named = raw.named := by
  obtain ⟨text, htext⟩ : ∃ text, Records [ascii "AES-", ascii "256"] text :=
    exists_records (by decide)
  obtain ⟨raw, encoded, hraw, hencoded, hiff⟩ := encoding_transparent (setup noCertificates)
    ⟨fun _ _ => rfl, fun _ _ => rfl⟩ "fw.bin" "fw.hex" _ text htext (by decide)
  refine ⟨text, raw, encoded, hraw, hencoded, hiff.mpr ⟨by decide, ?_⟩⟩
  rw [List.take_of_length_le (by decide)]

/-- A certificate with an Ed25519 key, in DER. -/
def der : Bytes :=
  [0x30, 0x66, 0x30, 0x5a, 0x02, 0x01, 0x01, 0x30, 0x05, 0x06, 0x03, 0x2b, 0x65, 0x70, 0x30, 0x00,
    0x30, 0x1e, 0x17, 0x0d, 0x32, 0x36, 0x30, 0x31, 0x30, 0x31, 0x30, 0x30, 0x30, 0x30, 0x30, 0x30,
    0x5a, 0x17, 0x0d, 0x33, 0x36, 0x30, 0x31, 0x30, 0x31, 0x30, 0x30, 0x30, 0x30, 0x30, 0x30, 0x5a,
    0x30, 0x00, 0x30, 0x2a, 0x30, 0x05, 0x06, 0x03, 0x2b, 0x65, 0x70, 0x03, 0x21, 0x00, 0x00, 0x00,
    0x00, 0x00, 0x00, 0x00, 0x00, 0x00, 0x00, 0x00, 0x00, 0x00, 0x00, 0x00, 0x00, 0x00, 0x00, 0x00,
    0x00, 0x00, 0x00, 0x00, 0x00, 0x00, 0x00, 0x00, 0x00, 0x00, 0x00, 0x00, 0x00, 0x00, 0x30, 0x05,
    0x06, 0x03, 0x2b, 0x65, 0x70, 0x03, 0x01, 0x00]

/-- Decoders that know one certificate. -/
def oneCertificate : Decoders where
  pemDecode _ := none
  parseCertificate s :=
    if s = der then
      some { raw := der, subject := "", issuer := "", notAfter := 2082758400000000000
             publicKeyAlgorithm := "Ed25519", publicKey := .ed25519
             signatureAlgorithm := "Ed25519" }
    else none
  sha256 _ :=
    [0x77, 0x5f, 0x9d, 0xd1, 0xfe, 0x99, 0x8f, 0x28, 0x2a, 0xbb, 0xe1, 0xff, 0x8d, 0x0c, 0x1f, 0xe6,
      0x50, 0x05, 0xba, 0x25, 0xd4, 0x2e, 0x4e, 0x88, 0x42, 0x0c, 0x7e, 0x8a, 0x3f, 0x7a, 0x91, 0x28]

theorem documented_oneCertificate : Documented oneCertificate where
  pemDecode _ _ := rfl
  parseCertificate s hs := by
    have hne : s ≠ der := by
      rintro rfl
      exact hs rfl
    exact if_neg hne

/-- A certificate that is the image itself is not found in an encoding of it. -/
theorem certificate_lost :
    ¬ ∀ (x : Setup) (_ : Documented x.decoders) (name name' : String) (ds : List Bytes)
      (text : Bytes) (_ : Records ds text)
      (_ : detectFormat x.cm name ds.flatten ∈ [Format.bin, Format.unknown]),
      ∃ raw encoded, analyzeBytes x name ds.flatten = .ok raw ∧
        analyzeBytes x name' text = .ok encoded ∧ encoded.named = raw.named := by
  intro h
  obtain ⟨text, htext⟩ : ∃ text, Records [der] text := exists_records (by decide)
  have hflat : [der].flatten = der := List.append_nil der
  have himage : detectFormat (setup oneCertificate).cm "fw.bin" [der].flatten ∈
      [Format.bin, Format.unknown] := by decide
  obtain ⟨raw, encoded, hraw, hencoded, hsame⟩ :=
    h (setup oneCertificate) documented_oneCertificate "fw.bin" "fw.hex" [der] text htext himage
  obtain ⟨raw', hraw', hnamed⟩ := report_raw 4 "fw.bin" himage
  obtain ⟨encoded', hencoded', hnamed'⟩ := report_encoded (x := setup oneCertificate)
    documented_oneCertificate "fw.hex" htext
  obtain rfl := Except.ok.inj (hraw.symm.trans hraw')
  obtain rfl := Except.ok.inj (hencoded.symm.trans hencoded')
  rw [hnamed, hnamed', eq_imageNames_iff, hflat, List.take_of_length_le (by decide)] at hsame
  have hmark : ¬ beginMark <:+: der := fun hin =>
    absurd (hin.subset (a := 0x2d) (by decide)) (by decide)
  have hparse : (setup oneCertificate).decoders.parseCertificate der ≠ none := by
    change (if der = der then some _ else none) ≠ none
    rw [if_pos rfl]
    exact nofun
  rw [extractFromBytes_pem_none rfl hmark, Option.toList_eq_nil_iff, parseDER,
    Option.map_eq_none_iff] at hsame
  exact hparse hsame.1

end RivicQ.Properties.Encodings
