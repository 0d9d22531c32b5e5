import Mathlib.Data.Set.Basic
import RivicQ.Firmware.Archives
import RivicQ.Firmware.Reports
import RivicQ.Lib.Groups

namespace RivicQ.Firmware.Analysis

open RivicQ.Lib.Bytes RivicQ.Lib.Groups RivicQ.Cryptoscan.Detect RivicQ.Certeng.Certificates
open RivicQ.Firmware.Archives RivicQ.Firmware.Formats RivicQ.Firmware.Reports
open RivicQ.Certeng.Assess (assess)
open RivicQ.Lib.Base64 (hexString)
open RivicQ.Lib.GoStrings (CaseMap trimSuffix)
open RivicQ.Lib.FilePaths (ext)

/-- The machines of `debug/elf` that have a name of their own, or another one by its name there. -/
inductive Machine where
  | arm | aarch64 | i386 | x86_64 | riscv | mips | ppc | ppc64 | avr
  | other (name : String)

def elfArchName : Machine → String
  | .arm => "ARM"
  | .aarch64 => "ARM64"
  | .i386 => "x86"
  | .x86_64 => "x86-64"
  | .riscv => "RISC-V"
  | .mips => "MIPS"
  | .ppc => "PowerPC"
  | .ppc64 => "PowerPC64"
  | .avr => "AVR"
  | .other name => name

/-- What `debug/elf` reads: the machine, the names of the symbols and the contents of the
sections. -/
structure ELFFile where
  machine : Machine
  symbols : List String
  sections : List Bytes

section Dedupe

def union (a b : List String) : List String := (a ++ b).dedup.mergeSort fun s t => s ≤ t

/-- One finding for each key, in the order of another text of theirs. -/
def dedupeBy {F : Type} (key : F → String) (merge : F → F → F) (order : F → String)
    (findings : List F) : List F :=
  (group key merge findings).values.mergeSort fun a b => order a ≤ order b

def dedupeLibraries : List LibraryFinding → List LibraryFinding :=
  dedupeBy LibraryFinding.library
    (fun prev l => { prev with markers := union prev.markers l.markers
                               confidence := max prev.confidence l.confidence })
    LibraryFinding.library

def dedupeAlgorithms : List AlgorithmFinding → List AlgorithmFinding :=
  dedupeBy AlgorithmFinding.algorithm
    (fun prev a => { prev with markers := union prev.markers a.markers
                               referenced := prev.referenced || a.referenced
                               confidence := max prev.confidence a.confidence })
    AlgorithmFinding.algorithm

def dedupeAPIs : List APIFinding → List APIFinding :=
  dedupeBy APIFinding.api (fun prev a => { prev with markers := union prev.markers a.markers })
    APIFinding.api

def dedupeProtocols : List ProtocolFinding → List ProtocolFinding :=
  dedupeBy ProtocolFinding.protocol
    (fun prev p => { prev with markers := union prev.markers p.markers }) ProtocolFinding.protocol

def dedupeRules : List RuleFinding → List RuleFinding :=
  dedupeBy RuleFinding.id (fun prev r => { prev with markers := union prev.markers r.markers })
    RuleFinding.id

/-- Of certificates with one fingerprint the last one stays. -/
def dedupeCerts : List CertificateFinding → List CertificateFinding :=
  dedupeBy (fun c => c.metadata.fingerprintSHA256) (fun _ c => c) (fun c => c.metadata.subject)

end Dedupe

/-- What the analysis rests on: the case tables, the decoders and readers of the standard library,
the profile, the limits and the options, the fresh id of the report and the time. -/
structure Setup where
  cm : CaseMap
  decoders : Decoders
  readers : Readers
  elf : Bytes → Except String ELFFile
  profile : Profile
  limits : Limits
  tenantID : String := ""
  deviceLifetime : String := ""
  id : String := ""
  now : Time := 0

variable (x : Setup)

def maxImage : Nat := 64 <<< 20

/-- The strings of an image, and the warnings. -/
def imageStrings (format : Format) (data : Bytes) : List String × List String :=
  match format with
  | .elf =>
    match x.elf data with
    | .ok ef =>
      (ef.symbols ++ ef.sections.flatMap (extractStrings 4 50000) ++ extractStrings 4 50000 data,
        [])
    | .error err =>
      (extractStrings 4 50000 data, ["ELF magic present but parse failed: " ++ err])
  | .ihex =>
    let d := parseIntelHex data
    (extractStrings 4 200000 d.image,
      if d.bad > 0 then ["Intel HEX: " ++ toString d.bad ++ " malformed/bad-checksum records"]
      else [])
  | .srec =>
    let d := parseSREC data
    (extractStrings 4 200000 d.image,
      if d.bad > 0 then ["S-record: " ++ toString d.bad ++ " malformed/bad-checksum records"]
      else [])
  | .pem => (extractStrings 4 50000 data, [])
  | _ => (extractStrings 4 200000 data, [])

/-- An image that no parser takes is cut at 64 MiB. -/
def imageData (format : Format) (data : Bytes) : Bytes :=
  match format with
  | .elf | .ihex | .srec | .pem => data
  | _ => if data.length > maxImage then data.take maxImage else data

/-- The name of the architecture of an image, if the parser has one. -/
def imageArch (format : Format) (data : Bytes) : String :=
  match format with
  | .elf =>
    match x.elf data with
    | .ok ef => elfArchName ef.machine
    | .error _ => ""
  | _ => ""

def certificateFinding (m : Metadata) : CertificateFinding :=
  ⟨m, assess x.cm m x.now x.deviceLifetime⟩

/-- String detection, and the certificates of the data. -/
def analyzeImage (rep : Report) (name : String) (data : Bytes) : Report :=
  let data := imageData rep.format data
  let found := imageStrings x rep.format data
  let det := detect x.cm x.profile found.1
  { rep with
    arch := imageArch x rep.format data
    stringCount := found.1.length
    libraries := det.libraries
    algorithms := det.algorithms
    cryptoAPIs := det.cryptoAPIs
    protocols := det.protocols
    rules := det.rules
    certificates := rep.certificates ++ (extractFromBytes x.decoders data name).map
      (certificateFinding x)
    warnings := rep.warnings ++ found.2 }

def shortFP (fp : String) : String :=
  if fp.length > 16 then String.ofList (fp.toList.take 16) else fp

/-- The findings of the algorithms of a certificate. -/
def certificateAlgorithms (c : CertificateFinding) : List AlgorithmFinding :=
  (algorithmsFromCert x.cm c.metadata.publicKeyAlgorithm c.metadata.signatureAlgorithm).map
    fun name => algorithm x.cm name
      ("certificate " ++ shortFP c.metadata.fingerprintSHA256 ++ " (" ++ name ++ ")")

def finalize (rep : Report) : Report :=
  withInventory { rep with
    libraries := dedupeLibraries rep.libraries
    algorithms := dedupeAlgorithms
      (rep.algorithms ++ rep.certificates.flatMap (certificateAlgorithms x))
    cryptoAPIs := dedupeAPIs rep.cryptoAPIs
    protocols := dedupeProtocols rep.protocols
    rules := dedupeRules rep.rules
    certificates := dedupeCerts rep.certificates }

/-- Fold the detections of a member into the report of its archive. -/
def mergeReport (parent child : Report) : Report :=
  { parent with
    libraries := parent.libraries ++ child.libraries
    algorithms := parent.algorithms ++ child.algorithms
    cryptoAPIs := parent.cryptoAPIs ++ child.cryptoAPIs
    protocols := parent.protocols ++ child.protocols
    rules := parent.rules ++ child.rules
    certificates := parent.certificates ++ child.certificates
    warnings := parent.warnings ++ child.warnings
    children := parent.children ++ [{
      name := child.fileName
      format := child.format
      sizeBytes := child.sizeBytes
      libraries := child.libraries.map LibraryFinding.library
      algorithms := child.algorithms.map AlgorithmFinding.algorithm
      warnings := child.warnings }] }

/-- What is analysed in an archive, the warnings, and what a member's error is marked with. -/
structure Members where
  entries : List ArchiveEntry
  warnings : List String
  mark : String → String

def archiveMembers (extracted : Extracted) : Members where
  entries := extracted.entries
  warnings := extracted.warnings ++ extracted.error.toList
  mark name := "child " ++ name ++ ": "

/-- The name of what a gzip file holds. -/
def childName (name : String) : String := trimSuffix name (ext name)

def gzipMembers (name : String) (inner : Except String Bytes) : Members :=
  match inner with
  | .error err => { entries := [], warnings := ["gzip: " ++ err], mark := fun _ => "gzip child: " }
  | .ok inner =>
    { entries := [⟨childName name, inner.take x.limits.maxDecompressedBytes⟩], warnings := []
      mark := fun _ => "gzip child: " }

/-- The members of an archive, if the format is one of an archive. -/
def members (format : Format) (name : String) (data : Bytes) : Option Members :=
  match format with
  | .zip => some (archiveMembers (extractZip x.limits (x.readers.unzip data)))
  | .tar => some (archiveMembers (extractTar x.limits (x.readers.untar data)))
  | .gzip => some (gzipMembers x name (x.readers.gunzip data))
  | _ => none

def newReport (name : String) (data : Bytes) : Report where
  id := x.id
  tenantID := x.tenantID
  fileName := name
  sizeBytes := data.length
  sha256 := hexString (x.decoders.sha256 data)
  format := detectFormat x.cm name data
  deviceLifetime := x.deviceLifetime
  scannedAt := x.now

/-- The result of one member goes into the report of its archive. -/
def mergeMember (mark : String → String) (analyze : ArchiveEntry → Except String Report)
    (rep : Report) (e : ArchiveEntry) : Report :=
  match analyze e with
  | .error err => { rep with warnings := rep.warnings ++ [mark e.name ++ err] }
  | .ok child => mergeReport rep child

/-- The analysis at a depth, by the number of levels that are left. -/
def analyzeDepth : Nat → String → Bytes → Except String Report
  | 0, _, _ => .error errLimit
  | left + 1, name, data =>
    let rep := newReport x name data
    match members x rep.format name data with
    | some ms =>
      .ok (finalize x (ms.entries.foldl
        (mergeMember ms.mark fun e => analyzeDepth left e.name e.data)
        { rep with warnings := ms.warnings }))
    | none => .ok (finalize x (analyzeImage x rep name data))

/-- Analyse an artifact in memory. -/
def analyzeBytes (name : String) (data : Bytes) : Except String Report :=
  analyzeDepth x (x.limits.maxArchiveDepth + 1) name data

section Names

variable {F : Type} {name : F → String} {a b : List F} {x : Setup}

theorem namesOf_append : namesOf name (a ++ b) = namesOf name a ∪ namesOf name b := by
  ext n
  simp only [namesOf, List.map_append, List.mem_append, Set.mem_setOf_eq, Set.mem_union]

theorem namesOf_dedupeBy {merge : F → F → F} {order : F → String}
    (hname : ∀ u v, name u = name v → name (merge u v) = name u) :
    namesOf name (dedupeBy name merge order a) = namesOf name a := by
  ext n
  have hsorted : n ∈ (dedupeBy name merge order a).map name ↔
      n ∈ (group name merge a).values.map name := by
    simp only [dedupeBy, List.mem_map, List.mem_mergeSort]
  exact hsorted.trans (mem_map_key_values hname)

theorem mem_dedupeBy_last {key order : F → String} {findings : List F} {f : F}
    (h : f ∈ dedupeBy key (fun _ c => c) order findings) : f ∈ findings := by
  obtain ⟨v, -, hsummary⟩ := mem_values.mp (List.mem_mergeSort.mp h)
  have hmem : f ∈ findings.filter fun w => key w = key v :=
    summary_rule (fun vs r => r ∈ vs) (fun v => List.mem_singleton_self v)
      (fun vs r v _ => List.mem_append_right vs List.mem_cons_self) hsummary
  exact List.mem_of_mem_filter hmem

theorem namesOf_dedupeAlgorithms (findings : List AlgorithmFinding) :
    namesOf AlgorithmFinding.algorithm (dedupeAlgorithms findings) =
      namesOf AlgorithmFinding.algorithm findings :=
  namesOf_dedupeBy fun _ _ _ => rfl

/-- Finishing a report adds the algorithms of its certificates, and nothing is lost. -/
theorem named_finalize (rep : Report) : (finalize x rep).named =
    { rep.named with
      algorithms := rep.named.algorithms ∪
        namesOf AlgorithmFinding.algorithm
          (rep.certificates.flatMap (certificateAlgorithms x)) } := by
  apply Named.ext
  · exact namesOf_dedupeBy fun _ _ _ => rfl
  · exact (namesOf_dedupeAlgorithms _).trans namesOf_append
  · exact namesOf_dedupeBy fun _ _ _ => rfl
  · exact namesOf_dedupeBy fun _ _ _ => rfl
  · exact namesOf_dedupeBy fun _ _ _ => rfl
  · exact namesOf_dedupeBy fun _ _ h => h.symm

theorem namesOf_nil : namesOf name [] = ∅ :=
  Set.eq_empty_of_forall_notMem fun _ => List.not_mem_nil

theorem namesOf_eq_empty_iff : namesOf name a = ∅ ↔ a = [] := by
  refine ⟨fun h => ?_, fun h => h ▸ namesOf_nil⟩
  cases a with
  | nil => rfl
  | cons u a =>
    have hu : name u ∈ namesOf name (u :: a) := List.mem_map_of_mem List.mem_cons_self
    rw [h] at hu
    exact absurd hu (Set.notMem_empty _)

end Names

section Depths

variable {x : Setup} {left : Nat} {artifact : String} {data : Bytes} {ms : Members}

theorem analyzeDepth_members
    (h : members x (detectFormat x.cm artifact data) artifact data = some ms) :
    analyzeDepth x (left + 1) artifact data =
      .ok (finalize x (ms.entries.foldl
        (mergeMember ms.mark fun e => analyzeDepth x left e.name e.data)
        { newReport x artifact data with warnings := ms.warnings })) := by
  have hformat : (newReport x artifact data).format = detectFormat x.cm artifact data := rfl
  simp only [analyzeDepth, hformat, h]

/-- What is reported of an artifact that is not an archive. -/
theorem analyzeDepth_image
    (h : members x (detectFormat x.cm artifact data) artifact data = none) :
    analyzeDepth x (left + 1) artifact data =
      .ok (finalize x (analyzeImage x (newReport x artifact data) artifact data)) := by
  have hformat : (newReport x artifact data).format = detectFormat x.cm artifact data := rfl
  simp only [analyzeDepth, hformat, h]

end Depths

section Images

/-- The names that string detection finds in an image. -/
def detectedNames (x : Setup) (image : Bytes) : Named :=
  let det := detect x.cm x.profile (extractStrings 4 200000 image)
  { libraries := namesOf LibraryFinding.library det.libraries
    algorithms := namesOf AlgorithmFinding.algorithm det.algorithms
    cryptoAPIs := namesOf APIFinding.api det.cryptoAPIs
    protocols := namesOf ProtocolFinding.protocol det.protocols
    rules := namesOf RuleFinding.id det.rules
    certificates := ∅ }

variable {x : Setup} {image data : Bytes}

/-- The names that detection finds in an image, with those of some certificates. -/
def imageNames (x : Setup) (image : Bytes) (certificates : List Metadata) : Named :=
  let found := certificates.map (certificateFinding x)
  { detectedNames x image with
    algorithms := (detectedNames x image).algorithms ∪
      namesOf AlgorithmFinding.algorithm (found.flatMap (certificateAlgorithms x))
    certificates := namesOf fingerprint found }

theorem imageNames_nil (x : Setup) (image : Bytes) :
    imageNames x image [] = detectedNames x image := by
  apply Named.ext
  · rfl
  · exact (congrArg _ namesOf_nil).trans (Set.union_empty _)
  · rfl
  · rfl
  · rfl
  · exact namesOf_nil

/-- Only names without certificates are those of detection. -/
theorem eq_imageNames_iff {certificates : List Metadata} {image' : Bytes} :
    detectedNames x image' = imageNames x image certificates ↔
      certificates = [] ∧ detectedNames x image = detectedNames x image' := by
  constructor
  · intro h
    have hnone : namesOf fingerprint (certificates.map (certificateFinding x)) = ∅ :=
      (congrArg Named.certificates h).symm
    have hnil : certificates = [] := List.map_eq_nil_iff.mp (namesOf_eq_empty_iff.mp hnone)
    rw [hnil, imageNames_nil] at h
    exact ⟨hnil, h.symm⟩
  · rintro ⟨rfl, h⟩
    rw [imageNames_nil, h]

variable (image) in
theorem named_analyzeImage {rep : Report} {name : String} (hrep : rep.certificates = [])
    (hstrings : (imageStrings x rep.format (imageData rep.format data)).1 =
      extractStrings 4 200000 image) :
    (finalize x (analyzeImage x rep name data)).named =
      imageNames x image (extractFromBytes x.decoders (imageData rep.format data) name) := by
  rw [named_finalize]
  simp only [analyzeImage, hrep, List.nil_append, hstrings]
  rfl

/-- The report of a raw image is about its first 64 MiB. -/
theorem report_raw (left : Nat) (name : String)
    (h : detectFormat x.cm name image ∈ [Format.bin, Format.unknown]) :
    ∃ raw, analyzeDepth x (left + 1) name image = .ok raw ∧
      raw.named = imageNames x (image.take maxImage)
        (extractFromBytes x.decoders (image.take maxImage) name) := by
  have hcut : ∀ format ∈ [Format.bin, Format.unknown], imageData format image =
      image.take maxImage := by
    intro format hformat
    have hif : (if image.length > maxImage then image.take maxImage else image) =
        image.take maxImage := by
      split_ifs with hlong
      · rfl
      · exact (List.take_of_length_le (Nat.not_lt.mp hlong)).symm
    simp only [List.mem_cons, List.not_mem_nil, or_false] at hformat
    obtain rfl | rfl := hformat <;> exact hif
  have hmembers : members x (detectFormat x.cm name image) name image = none := by
    simp only [List.mem_cons, List.not_mem_nil, or_false] at h
    obtain h | h := h <;> rw [h] <;> rfl
  refine ⟨_, analyzeDepth_image hmembers, ?_⟩
  rw [← hcut _ h]
  refine named_analyzeImage _ rfl ?_
  change (imageStrings x (detectFormat x.cm name image)
    (imageData (detectFormat x.cm name image) image)).1 = _
  simp only [List.mem_cons, List.not_mem_nil, or_false] at h
  obtain h | h := h <;> rw [h] <;> rfl

end Images

end RivicQ.Firmware.Analysis
