import RivicQ.Lib.ByteText
import RivicQ.Lib.FilePaths

namespace RivicQ.Firmware.Formats

open RivicQ.Lib.Bytes RivicQ.Lib.ByteText

inductive Format where
  | elf | bin | ihex | srec | pem | zip | tar | gzip | unknown
  deriving DecidableEq

def Format.text : Format → String
  | .elf => "elf"
  | .bin => "bin"
  | .ihex => "ihex"
  | .srec => "srec"
  | .pem => "pem"
  | .zip => "zip"
  | .tar => "tar"
  | .gzip => "gzip"
  | .unknown => "unknown"

section Detection

open RivicQ.Lib.GoStrings (CaseMap toLower)
open RivicQ.Lib.FilePaths (ext)

variable (cm : CaseMap)

def lowerExt (name : String) : String := toLower cm (ext name)

/-- `bytes.TrimLeft` with the cutset of the source. -/
def trimPadding (data : Bytes) : Bytes :=
  data.dropWhile fun b => [0x20, 0x09, 0x0d, 0x0a, 0x00].contains b

/-- The artifact is a PEM document itself, rather than a binary that merely embeds one. -/
def isPEMOnly (name : String) (data : Bytes) : Bool :=
  if (ascii "-----BEGIN ").isPrefixOf (trimPadding data) then true
  else if lowerExt cm name ∈ [".pem", ".crt", ".cer"] then
    decide (ascii "-----BEGIN CERTIFICATE-----" <:+: data)
  else false

/-- The first line among the first 256 bytes that is not blank. -/
def firstLine (data : Bytes) : Option Bytes :=
  ((lines (data.take 256)).map trimSpace).find? (fun line => decide (line ≠ []))

def looksLikeIntelHex (data : Bytes) : Bool :=
  match firstLine data with
  | some line => (ascii ":").isPrefixOf line && decide (line.length ≥ 11)
  | none => false

def looksLikeSREC (data : Bytes) : Bool :=
  match firstLine data with
  | some line => decide (line.length ≥ 10 ∧ line.getD 0 0 = 0x53 ∧ 0x30 ≤ line.getD 1 0 ∧
      line.getD 1 0 ≤ 0x33)
  | none => false

def formatOfExt (name : String) (data : Bytes) : Format :=
  let e := lowerExt cm name
  if e ∈ [".hex", ".ihex"] then .ihex
  else if e ∈ [".srec", ".s19", ".s28", ".s37", ".mot"] then .srec
  else if e ∈ [".pem", ".crt", ".cer"] then .pem
  else if e = ".tar" then .tar
  else if e ∈ [".gz", ".tgz"] then .gzip
  else if e = ".zip" then .zip
  else if e ∈ [".bin", ".img", ".fw", ".elf"] then .bin
  else if data.length > 0 then .bin
  else .unknown

/-- Classify bytes by magic and content, and then by the extension of the name. -/
def detectFormat (name : String) (data : Bytes) : Format :=
  if data.take 4 = 0x7f :: ascii "ELF" then .elf
  else if data.length ≥ 4 ∧ data.take 2 = ascii "PK" ∧ data.getD 2 0 ∈ [0x03, 0x05, 0x07] then .zip
  else if data.take 2 = [0x1f, 0x8b] then .gzip
  else if isPEMOnly cm name data then .pem
  else if looksLikeIntelHex data then .ihex
  else if looksLikeSREC data then .srec
  else formatOfExt cm name data

end Detection

section Decoding

def hexVal (c : UInt8) : Option Nat :=
  if 0x30 ≤ c ∧ c ≤ 0x39 then some (c.toNat - 0x30)
  else if 0x61 ≤ c ∧ c ≤ 0x66 then some (c.toNat - 0x61 + 10)
  else if 0x41 ≤ c ∧ c ≤ 0x46 then some (c.toNat - 0x41 + 10)
  else none

def hexPairs : Bytes → Option Bytes
  | [] => some []
  | [_] => none
  | h :: l :: rest =>
    match hexVal h, hexVal l, hexPairs rest with
    | some hi, some lo, some out => some (UInt8.ofNat (hi <<< 4 ||| lo) :: out)
    | _, _, _ => none

def hexDecode (s : Bytes) : Except String Bytes :=
  let s := trimSpace s
  if s.length % 2 ≠ 0 then .error "odd hex length"
  else
    match hexPairs s with
    | some out => .ok out
    | none => .error "invalid hex"

def byteSum (body : Bytes) : UInt8 := body.foldl (· + ·) 0

/-- What one line does to the image decoded so far. -/
inductive LineEffect where
  | skip
  | malformed
  | write (bytes : Bytes) (record : Bool)
  | stop

structure Decoded where
  image : Bytes := []
  records : Nat := 0
  bad : Nat := 0
  deriving DecidableEq

/-- The loop over the lines of a text. -/
def decodeLines (step : Bytes → LineEffect) (d : Decoded) : List Bytes → Decoded
  | [] => d
  | raw :: rest =>
    match step (trimSpace raw) with
    | .skip => decodeLines step d rest
    | .malformed => decodeLines step { d with bad := d.bad + 1 } rest
    | .write bytes record =>
      decodeLines step { d with image := d.image ++ bytes,
                                records := if record then d.records + 1 else d.records } rest
    | .stop => d

/-- The bytes of a line that passes the checks of `parseIntelHex`. -/
def intelHexBody (line : Bytes) : Option Bytes :=
  if ¬ (ascii ":").isPrefixOf line then none
  else
    match hexDecode (line.drop 1) with
    | .error _ => none
    | .ok body =>
      if body.length < 5 then none
      else if byteSum body ≠ 0 then none
      else if 4 + (body.getD 0 0).toNat + 1 > body.length then none
      else some body

def intelHexEffect (body : Bytes) : LineEffect :=
  let recLen := (body.getD 0 0).toNat
  if body.getD 3 0 = 0x00 then .write ((body.take (4 + recLen)).drop 4) true
  else if body.getD 3 0 = 0x01 then .stop
  -- address and segment records are ignored for image reconstruction
  else .skip

def intelHexLine (line : Bytes) : LineEffect :=
  if line = [] then .skip
  else
    match intelHexBody line with
    | none => .malformed
    | some body => intelHexEffect body

def parseIntelHex (data : Bytes) : Decoded := decodeLines intelHexLine {} (lines data)

/-- The bytes of a line that passes the checks of `parseSREC`. -/
def srecBody (line : Bytes) : Option Bytes :=
  if line.length < 4 ∨ line.getD 0 0 ≠ 0x53 then none
  else
    match hexDecode (line.drop 2) with
    | .error _ => none
    | .ok body =>
      let count := (body.getD 0 0).toNat
      if body.length < 1 then none
      else if count + 1 > body.length then none
      else if byteSum (body.take (count + 1)) ≠ 0xff then none
      else some body

/-- The number of address bytes of a record type. -/
def addrLen (typ : UInt8) : Nat :=
  if typ ∈ ascii "268" then 3 else if typ ∈ ascii "37" then 4 else 2

def srecEffect (typ : UInt8) (body : Bytes) : LineEffect :=
  let count := (body.getD 0 0).toNat
  let dataStart := 1 + addrLen typ
  let dataEnd := count - 1
  if dataStart < dataEnd ∧ dataEnd ≤ body.length then
    .write ((body.take dataEnd).drop dataStart) (decide (typ ∈ ascii "123"))
  else .skip

def srecLine (line : Bytes) : LineEffect :=
  if line = [] then .skip
  else
    match srecBody line with
    | none => .malformed
    | some body => srecEffect (line.getD 1 0) body

def parseSREC (data : Bytes) : Decoded := decodeLines srecLine {} (lines data)

end Decoding

section Digits

variable {s body : Bytes} {c : UInt8} {v : Nat}

theorem hexVal_eq_some_iff : hexVal c = some v ↔ HexDigit c v := hexValue_eq_some_iff

theorem hexPairs_spells (h : Spells s body) : hexPairs s = some body := by
  induction h with
  | nil => rfl
  | @cons h l b digits bytes hh hl _ ih =>
    have hbyte : UInt8.ofNat ((b.toNat / 16) <<< 4 ||| b.toNat % 16) = b := by
      rw [byte_halves (lt_hexDigit hl), Nat.div_add_mod, UInt8.ofNat_toNat]
    simp only [hexPairs, hexVal_eq_some_iff.mpr hh, hexVal_eq_some_iff.mpr hl, ih, hbyte]

theorem spells_hexPairs (h : hexPairs s = some body) : Spells s body := by
  fun_induction hexPairs s generalizing body with
  | case1 =>
    cases h
    exact .nil
  | case2 => cases h
  | case3 h l rest hi lo out hrest hl hh ih =>
    cases h
    have hh := hexVal_eq_some_iff.mp hh
    have hl := hexVal_eq_some_iff.mp hl
    have hhi := lt_hexDigit hh
    have hlo := lt_hexDigit hl
    have hbyte : (UInt8.ofNat (hi <<< 4 ||| lo)).toNat = 16 * hi + lo := by
      rw [byte_halves hlo, UInt8.toNat_ofNat']
      omega
    refine .cons ?_ ?_ (ih hrest)
    · rwa [hbyte, show (16 * hi + lo) / 16 = hi by omega]
    · rwa [hbyte, show (16 * hi + lo) % 16 = lo by omega]
  | case4 => cases h

/-- Decoding gives the bytes that the digits between blanks spell. -/
theorem hexDecode_eq_ok_iff : hexDecode s = .ok body ↔ Spells (trimSpace s) body := by
  simp only [hexDecode]
  constructor
  · intro h
    split_ifs at h
    split at h
    · rename_i out hpairs
      cases h
      exact spells_hexPairs hpairs
    · cases h
  · intro h
    have heven : ¬ (trimSpace s).length % 2 ≠ 0 := by
      rw [length_spells h]
      omega
    rw [if_neg heven, hexPairs_spells h]

end Digits

section Lines

variable {step : Bytes → LineEffect} {d : Decoded} {ls : List Bytes} {raw line e rest : Bytes}

/-- The results of two parts of a text. -/
def Decoded.add (d d' : Decoded) : Decoded :=
  ⟨d.image ++ d'.image, d.records + d'.records, d.bad + d'.bad⟩

theorem Decoded.add_empty (d : Decoded) : d.add {} = d := by
  simp [Decoded.add]

theorem Decoded.empty_add (d : Decoded) : Decoded.add {} d = d := by
  simp [Decoded.add]

theorem Decoded.add_assoc (d d' d'' : Decoded) : (d.add d').add d'' = d.add (d'.add d'') := by
  simp only [Decoded.add, List.append_assoc, Nat.add_assoc]

/-- The loop adds what the lines give to what it starts from. -/
theorem decodeLines_add (step : Bytes → LineEffect) (d : Decoded) (ls : List Bytes) :
    decodeLines step d ls = d.add (decodeLines step {} ls) := by
  induction ls generalizing d with
  | nil => exact d.add_empty.symm
  | cons raw rest ih =>
    simp only [decodeLines]
    cases step (trimSpace raw) with
    | skip => exact ih d
    | malformed =>
      change decodeLines step _ rest = d.add (decodeLines step _ rest)
      rw [ih, ih ⟨[], 0, 0 + 1⟩, ← Decoded.add_assoc]
      simp [Decoded.add]
    | write bytes record =>
      change decodeLines step _ rest = d.add (decodeLines step _ rest)
      rw [ih, ih ⟨[] ++ bytes, if record then 0 + 1 else 0, 0⟩, ← Decoded.add_assoc]
      cases record <;> simp [Decoded.add]
    | stop => exact d.add_empty.symm

theorem decodeLines_skip (h : step (trimSpace raw) = .skip) :
    decodeLines step d (raw :: ls) = decodeLines step d ls := by
  rw [decodeLines, h]

theorem decodeLines_malformed (h : step (trimSpace raw) = .malformed) :
    decodeLines step {} (raw :: ls) = Decoded.add ⟨[], 0, 1⟩ (decodeLines step {} ls) := by
  rw [decodeLines, h]
  exact decodeLines_add step _ ls

theorem decodeLines_write {bytes : Bytes} {record : Bool}
    (h : step (trimSpace raw) = .write bytes record) :
    decodeLines step {} (raw :: ls) =
      Decoded.add ⟨bytes, if record then 1 else 0, 0⟩ (decodeLines step {} ls) := by
  rw [decodeLines, h]
  exact decodeLines_add step _ ls

theorem decodeLines_stop (h : step (trimSpace raw) = .stop) :
    decodeLines step d (raw :: ls) = d := by
  rw [decodeLines, h]

variable (step d) in
/-- A line of a text is decoded without its line end. -/
theorem decodeLines_lineEnd (hskip : step [] = .skip) (hline : 0x0a ∉ line)
    (he : LineEnd e rest) : ∃ cr, Blank cr ∧
      decodeLines step d (lines (line ++ e ++ rest)) =
        decodeLines step d ((line ++ cr) :: lines rest) := by
  obtain ⟨cr, hcr, h | ⟨rfl, h⟩⟩ := lines_lineEnd hline he
  · exact ⟨cr, hcr, by rw [h]⟩
  · have hempty : ∀ d, decodeLines step d (lines []) = d := by
      intro d
      change decodeLines step d [[]] = decodeLines step d []
      exact decodeLines_skip hskip
    refine ⟨cr, hcr, ?_⟩
    rw [h, decodeLines, decodeLines]
    simp only [hempty, decodeLines]

end Lines

end RivicQ.Firmware.Formats
