import Mathlib.Algebra.GroupWithZero.Nat
import RivicQ.Lib.Bytes
import RivicQ.Lib.FilePaths

namespace RivicQ.Firmware.Archives

open RivicQ.Lib.Bytes RivicQ.Lib.FilePaths
open RivicQ.Lib.GoStrings (contains hasPrefix)

structure Limits where
  maxDecompressedBytes : Nat
  maxArchiveEntries : Nat
  maxArchiveDepth : Nat

structure ArchiveEntry where
  name : String
  data : Bytes

/-- A file of a ZIP archive, with the bits of its `fs.FileMode`. Its content is there unless it
cannot be read. -/
structure ZipFile where
  name : String
  mode : UInt32
  uncompressedSize : Nat
  opens : Bool
  content : Option Bytes

/-- A file of a tar stream. -/
structure TarFile where
  name : String
  regular : Bool
  content : Option Bytes

/-- The readers of `archive/zip`, `archive/tar` and `compress/gzip`. A tar stream that breaks off
gives the files before that, and the error. -/
structure Readers where
  unzip : Bytes → Except String (List ZipFile)
  untar : Bytes → List TarFile × Option String
  gunzip : Bytes → Except String Bytes

def errLimit : String := "firmware: safety limit exceeded"

/-- The name of an archive member, unless it is empty, absolute or leads up. -/
def safeArchiveName (name : String) : Option String :=
  let clean := clean (String.ofList (name.toList.map fun c => if c = '\\' then '/' else c))
  if clean = "." ∨ clean = "" then none
  else if hasPrefix clean "/" || hasPrefix clean "../" || contains clean "/../" ||
      decide (clean = "..") then none
  else some clean

/-- What an archive gives: its entries, the warnings, and an error. -/
structure Extracted where
  entries : List ArchiveEntry
  warnings : List String
  error : Option String := none

section Extraction

variable (limits : Limits)

section Loop

variable {F : Type} (kind : String) (nameOf : F → String)
  (read : F → String → Except String Bytes) (err : Option String)

/-- The loop over the files of an archive, of which each gives its content or a warning. -/
def extractFrom (out : List ArchiveEntry) (warnings : List String) (total : Nat) :
    List F → Extracted
  | [] => { entries := out, warnings, error := err }
  | f :: rest =>
    if out.length ≥ limits.maxArchiveEntries then
      { entries := out, warnings := warnings ++ [kind ++ ": entry cap reached"] }
    else
      match safeArchiveName (nameOf f) with
      | none =>
        extractFrom out (warnings ++ [kind ++ ": skipped unsafe path " ++ nameOf f]) total rest
      | some name =>
        match read f name with
        | .error warning => extractFrom out (warnings ++ [warning]) total rest
        | .ok content =>
          let b := content.take (limits.maxDecompressedBytes - total + 1)
          let total := total + b.length
          if total > limits.maxDecompressedBytes then
            { entries := out, warnings := warnings ++ [kind ++ ": decompressed cap reached"]
              error := some errLimit }
          else extractFrom (out ++ [⟨name, b⟩]) warnings total rest

end Loop

def readZipFile (f : ZipFile) (name : String) : Except String Bytes :=
  if f.mode &&& 0o170000 = 0o120000 then .error ("zip: skipped symlink " ++ name)
  else if f.uncompressedSize > limits.maxDecompressedBytes then
    .error ("zip: skipped oversized entry " ++ name)
  else if !f.opens then .error ("zip: open failed " ++ name)
  else
    match f.content with
    | none => .error ("zip: read failed " ++ name)
    | some content => .ok content

def extractZip (files : Except String (List ZipFile)) : Extracted :=
  match files with
  | .error err => { entries := [], warnings := [], error := some err }
  | .ok files => extractFrom limits "zip" ZipFile.name (readZipFile limits) none [] [] 0 files

def readTarFile (f : TarFile) (name : String) : Except String Bytes :=
  if !f.regular then .error ("tar: skipped non-regular " ++ name)
  else
    match f.content with
    | none => .error ("tar: read failed " ++ name)
    | some content => .ok content

/-- The files of a stream that ends or breaks off. -/
def extractTar (stream : List TarFile × Option String) : Extracted :=
  extractFrom limits "tar" TarFile.name readTarFile stream.2 [] [] 0 stream.1

end Extraction

section Entries

variable {limits : Limits} {F : Type} {kind : String} {nameOf : F → String}
  {read : F → String → Except String Bytes} {err : Option String} {size : F → Nat}
  {out : List ArchiveEntry} {warnings : List String} {total : Nat} {files : List F} {f : F}

variable (kind nameOf err warnings files) in
/-- Within the limits, a file is passed over or its whole content becomes an entry. -/
theorem extractFrom_cons
    (hsize : ∀ name content, read f name = .ok content → content.length ≤ size f)
    (hentries : out.length < limits.maxArchiveEntries)
    (htotal : total + size f ≤ limits.maxDecompressedBytes) :
    ∃ out' warnings' total',
      extractFrom limits kind nameOf read err out warnings total (f :: files) =
        extractFrom limits kind nameOf read err out' warnings' total' files ∧
      out'.length ≤ out.length + 1 ∧ total' ≤ total + size f ∧ out ⊆ out' ∧
      ∀ name content, safeArchiveName (nameOf f) = some name → read f name = .ok content →
        ⟨name, content⟩ ∈ out' := by
  rw [extractFrom, if_neg (Nat.not_le.mpr hentries)]
  cases hname : safeArchiveName (nameOf f) with
  | none => exact ⟨out, _, total, rfl, by omega, by omega, fun _ h => h, fun _ _ h => nomatch h⟩
  | some name =>
    cases hread : read f name with
    | error warning =>
      refine ⟨out, warnings ++ [warning], total, ?_, by omega, by omega, fun _ h => h, ?_⟩
      · simp only [hread]
      · rintro _ _ ⟨⟩ h
        rw [hread] at h
        exact nomatch h
    | ok content =>
      have hlength := hsize name content hread
      have htake : content.take (limits.maxDecompressedBytes - total + 1) = content :=
        List.take_of_length_le (by omega)
      refine ⟨out ++ [⟨name, content⟩], warnings, total + content.length, ?_, ?_, by omega,
        List.subset_append_left _ _, ?_⟩
      · simp only [hread, htake]
        rw [if_neg (by omega)]
      · rw [List.length_append, List.length_singleton]
      · rintro _ _ ⟨⟩ h
        rw [hread] at h
        cases h
        exact List.mem_append_right _ List.mem_cons_self

/-- Within the limits, every file that is safely named and can be read becomes an entry. -/
theorem mem_extractFrom (hsize : ∀ f ∈ files, ∀ name content, read f name = .ok content →
      content.length ≤ size f)
    (hentries : out.length + files.length ≤ limits.maxArchiveEntries)
    (htotal : total + (files.map size).sum ≤ limits.maxDecompressedBytes) {e : ArchiveEntry}
    (he : e ∈ out ∨ ∃ f ∈ files, safeArchiveName (nameOf f) = some e.name ∧
      read f e.name = .ok e.data) :
    e ∈ (extractFrom limits kind nameOf read err out warnings total files).entries := by
  induction files generalizing out warnings total with
  | nil =>
    obtain he | ⟨f, hf, -⟩ := he
    · exact he
    · exact nomatch hf
  | cons f files ih =>
    obtain ⟨hf, hfiles⟩ := List.forall_mem_cons.mp hsize
    rw [List.length_cons] at hentries
    rw [List.map_cons, List.sum_cons] at htotal
    obtain ⟨out', warnings', total', hstep, hout, htotal', hsub, htaken⟩ :=
      extractFrom_cons kind nameOf err warnings files hf
        (by omega : out.length < limits.maxArchiveEntries)
        (by omega : total + size f ≤ limits.maxDecompressedBytes)
    rw [hstep]
    refine ih hfiles (by omega) (by omega) ?_
    obtain he | ⟨g, hg, hname, hread⟩ := he
    · exact .inl (hsub he)
    obtain rfl | hg := List.mem_cons.mp hg
    · exact .inl (htaken e.name e.data hname hread)
    · exact .inr ⟨g, hg, hname, hread⟩

end Entries

end RivicQ.Firmware.Archives

namespace RivicQ.Firmware.Packing

open RivicQ.Lib.Bytes RivicQ.Firmware.Archives
open RivicQ.Lib.GoStrings (hasSuffix)

/-- The file types of Unix. -/
inductive Kind where
  | regular
  | directory
  | symlink
  | namedPipe
  | socket
  | charDevice
  | blockDevice
  deriving DecidableEq

/-- A member of an archive, whatever its format. Names with a slash at the end are those of
directories, which hold no content; the content of a symbolic link is its target. -/
structure Member where
  name : String
  kind : Kind
  permissions : UInt32 := 0o644
  content : Bytes
  slash : hasSuffix name "/" = true → kind = .directory
  empty : kind = .directory → content = []

/-- The type bits of a Unix mode. -/
def Kind.bits : Kind → UInt32
  | .socket => 0xc000
  | .symlink => 0xa000
  | .regular => 0x8000
  | .blockDevice => 0x6000
  | .directory => 0x4000
  | .charDevice => 0x2000
  | .namedPipe => 0x1000

def modeDir : UInt32 := 0x80000000

def modeSymlink : UInt32 := 0x08000000

def modeDevice : UInt32 := 0x04000000

def modeNamedPipe : UInt32 := 0x02000000

def modeSocket : UInt32 := 0x01000000

def modeSetuid : UInt32 := 0x00800000

def modeSetgid : UInt32 := 0x00400000

def modeCharDevice : UInt32 := 0x00200000

def modeSticky : UInt32 := 0x00100000

/-- The type bits of an `fs.FileMode`, from those of a Unix mode. -/
def modeType (t : UInt32) : UInt32 :=
  if t = 0x6000 then modeDevice
  else if t = 0x2000 then modeDevice ||| modeCharDevice
  else if t = 0x4000 then modeDir
  else if t = 0x1000 then modeNamedPipe
  else if t = 0xa000 then modeSymlink
  else if t = 0xc000 then modeSocket
  else 0

/-- How `archive/zip` reads a Unix mode. -/
def unixModeToFileMode (m : UInt32) : UInt32 :=
  (m &&& 0o777) ||| modeType (m &&& 0xf000) |||
    (if m &&& 0x400 ≠ 0 then modeSetgid else 0) |||
    (if m &&& 0x800 ≠ 0 then modeSetuid else 0) |||
    (if m &&& 0x200 ≠ 0 then modeSticky else 0)

namespace Member

def unixMode (m : Member) : UInt32 := m.kind.bits ||| (m.permissions &&& 0o7777)

/-- A name with a slash at the end makes a directory. -/
def fileMode (m : Member) : UInt32 :=
  unixModeToFileMode m.unixMode ||| if hasSuffix m.name "/" then modeDir else 0

/-- The member as a ZIP archive made on Unix holds it. -/
def zipFile (m : Member) : ZipFile where
  name := m.name
  mode := m.fileMode
  uncompressedSize := m.content.length
  opens := true
  content := some m.content

/-- The member as a tar stream holds it. -/
def tarFile (m : Member) : TarFile where
  name := m.name
  regular := m.kind = .regular
  content := some m.content

/-- The entry of a member that is safely named. -/
def entry (m : Member) : Option ArchiveEntry :=
  (safeArchiveName m.name).map fun name => ⟨name, m.content⟩

end Member

section Modes

theorem and_or_distrib (a b c : UInt32) : (a ||| b) &&& c = (a &&& c) ||| (b &&& c) :=
  UInt32.toBitVec_inj.mp BitVec.and_or_distrib_right

theorem modeType_and (t : UInt32) : modeType t &&& 0o170000 = 0 := by
  unfold modeType
  split_ifs <;> decide

/-- No `fs.FileMode` has the bits that are looked at for a symbolic link. -/
theorem unixModeToFileMode_and (m : UInt32) : unixModeToFileMode m &&& 0o170000 = 0 := by
  have hpermissions : m &&& 0o777 &&& 0o170000 = 0 := by
    rw [UInt32.and_assoc]
    exact UInt32.and_zero
  have hbit : ∀ (p : Prop) [Decidable p], ∀ b : UInt32, b &&& 0o170000 = 0 →
      (if p then b else 0) &&& 0o170000 = 0 := by
    intro p _ b hb
    split_ifs
    · exact hb
    · rfl
  unfold unixModeToFileMode
  simp only [and_or_distrib, hpermissions, modeType_and]
  rw [hbit _ modeSetgid (by decide), hbit _ modeSetuid (by decide), hbit _ modeSticky (by decide)]
  rfl

theorem fileMode_and (m : Member) : m.fileMode &&& 0o170000 = 0 := by
  unfold Member.fileMode
  rw [and_or_distrib, unixModeToFileMode_and]
  split_ifs <;> decide

end Modes

end RivicQ.Firmware.Packing
