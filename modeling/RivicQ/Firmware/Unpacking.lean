import Mathlib.Algebra.BigOperators.Group.List.Basic
import RivicQ.Firmware.Analysis

namespace RivicQ.Firmware.Unpacking

open RivicQ.Lib.Bytes RivicQ.Firmware.Archives RivicQ.Firmware.Formats RivicQ.Firmware.Reports
open RivicQ.Firmware.Analysis

def sizeOf (entries : List ArchiveEntry) : Nat := (entries.map fun e => e.data.length).sum

/-- A call of the analysis that is not refused. -/
structure Visit where
  depth : Nat
  name : String
  data : Bytes

variable (x : Setup)

/-- What is analysed in the artifact of a call, if it is an archive. -/
def Visit.opened (v : Visit) : Option Members :=
  members x (detectFormat x.cm v.name v.data) v.name v.data

/-- How many bytes a call unpacks. -/
def Visit.held (v : Visit) : Nat := (v.opened x).elim 0 fun ms => sizeOf ms.entries

/-- The calls of an analysis at a depth, by the number of levels that are left. -/
def visits : Nat → Nat → String → Bytes → List Visit
  | 0, _, _, _ => []
  | left + 1, depth, name, data =>
    ⟨depth, name, data⟩ ::
      match members x (detectFormat x.cm name data) name data with
      | none => []
      | some ms => ms.entries.flatMap fun e => visits left (depth + 1) e.name e.data

/-- The calls of the analysis of an artifact in memory. -/
def calls (name : String) (data : Bytes) : List Visit :=
  visits x (x.limits.maxArchiveDepth + 1) 0 name data

section Extraction

variable {x} {limits : Limits} {F : Type} {kind : String} {nameOf : F → String}
  {read : F → String → Except String Bytes} {err : Option String}
  {out : List ArchiveEntry} {warnings : List String} {total : Nat} {files before after : List F}
  {f : F}

/-- What a file gives, if it is not passed over. -/
def contentOf (nameOf : F → String) (read : F → String → Except String Bytes) (f : F) :
    Option ArchiveEntry :=
  match safeArchiveName (nameOf f) with
  | none => none
  | some name =>
    match read f name with
    | .error _ => none
    | .ok content => some ⟨name, content⟩

theorem size_append (a b : List ArchiveEntry) : sizeOf (a ++ b) = sizeOf a + sizeOf b := by
  rw [sizeOf, List.map_append, List.sum_append, sizeOf, sizeOf]

theorem size_singleton (e : ArchiveEntry) : sizeOf [e] = e.data.length := rfl

/-- The entries of an archive are within the limit. -/
theorem size_extractFrom (hout : sizeOf out = total) (htotal : total ≤ limits.maxDecompressedBytes) :
    sizeOf (extractFrom limits kind nameOf read err out warnings total files).entries ≤
      limits.maxDecompressedBytes := by
  induction files generalizing out warnings total with
  | nil => exact hout ▸ htotal
  | cons f files ih =>
    rw [extractFrom]
    split_ifs with hentries
    · exact hout ▸ htotal
    cases hname : safeArchiveName (nameOf f) with
    | none => exact ih hout htotal
    | some name =>
      cases hread : read f name with
      | error warning =>
        simp only [hread]
        exact ih hout htotal
      | ok content =>
        simp only [hread]
        split_ifs with hover
        · exact hout ▸ htotal
        · refine ih ?_ (by omega)
          rw [size_append, size_singleton, hout]

theorem warnings_extractFrom :
    warnings ⊆ (extractFrom limits kind nameOf read err out warnings total files).warnings := by
  induction files generalizing out warnings total with
  | nil => exact fun _ h => h
  | cons f files ih =>
    rw [extractFrom]
    split_ifs with hentries
    · exact List.subset_append_left _ _
    cases hname : safeArchiveName (nameOf f) with
    | none => exact List.Subset.trans (List.subset_append_left _ _) ih
    | some name =>
      cases hread : read f name with
      | error warning =>
        simp only [hread]
        exact List.Subset.trans (List.subset_append_left _ _) ih
      | ok content =>
        simp only [hread]
        split_ifs with hover
        · exact List.subset_append_left _ _
        · exact ih

variable (kind err warnings) in
/-- The loop comes to a file if what is before it is within the limits. -/
theorem extractFrom_reaches
    (hentries : (out ++ before.filterMap (contentOf nameOf read)).length <
      limits.maxArchiveEntries)
    (hsize : total + sizeOf (before.filterMap (contentOf nameOf read)) ≤
      limits.maxDecompressedBytes) :
    ∃ warnings', extractFrom limits kind nameOf read err out warnings total (before ++ f :: after) =
      extractFrom limits kind nameOf read err (out ++ before.filterMap (contentOf nameOf read))
        warnings' (total + sizeOf (before.filterMap (contentOf nameOf read))) (f :: after) := by
  induction before generalizing out warnings total with
  | nil => exact ⟨warnings, by simp [sizeOf]⟩
  | cons g before ih =>
    have hroom : ¬ out.length ≥ limits.maxArchiveEntries := by
      rw [List.length_append] at hentries
      omega
    rw [List.cons_append, extractFrom, if_neg hroom]
    cases hname : safeArchiveName (nameOf g) with
    | none =>
      have hskip : contentOf nameOf read g = none := by simp only [contentOf, hname]
      rw [List.filterMap_cons_none hskip] at hentries hsize ⊢
      exact ih _ hentries hsize
    | some name =>
      cases hread : read g name with
      | error warning =>
        have hskip : contentOf nameOf read g = none := by simp only [contentOf, hname, hread]
        rw [List.filterMap_cons_none hskip] at hentries hsize ⊢
        simp only [hread]
        exact ih _ hentries hsize
      | ok content =>
        have hkeep : contentOf nameOf read g = some ⟨name, content⟩ := by
          simp only [contentOf, hname, hread]
        have hsizes : sizeOf (⟨name, content⟩ :: before.filterMap (contentOf nameOf read)) =
            content.length + sizeOf (before.filterMap (contentOf nameOf read)) := List.sum_cons
        rw [List.filterMap_cons_some hkeep] at hentries hsize ⊢
        rw [hsizes] at hsize ⊢
        have htake : content.take (limits.maxDecompressedBytes - total + 1) = content :=
          List.take_of_length_le (by omega)
        simp only [hread, htake]
        rw [if_neg (by omega)]
        obtain ⟨warnings', hreach⟩ := @ih (out ++ [⟨name, content⟩]) warnings
          (total + content.length) (by simpa using hentries) (by omega)
        exact ⟨warnings', by rw [hreach, List.append_assoc, List.singleton_append, Nat.add_assoc]⟩

variable (limits nameOf read) in
/-- A file that the loop comes to: what is before it is within the limits. -/
structure Reached (files before : List F) (f : F) : Prop where
  split : ∃ after, files = before ++ f :: after
  entries : (before.filterMap (contentOf nameOf read)).length < limits.maxArchiveEntries
  size : sizeOf (before.filterMap (contentOf nameOf read)) ≤ limits.maxDecompressedBytes

variable (kind err) in
/-- What is said of a file that is not read is said of the archive. -/
theorem mem_warnings_of_error {name warning : String}
    (h : Reached limits nameOf read files before f) (hname : safeArchiveName (nameOf f) = some name)
    (hread : read f name = .error warning) :
    warning ∈ (extractFrom limits kind nameOf read err [] [] 0 files).warnings := by
  obtain ⟨after, rfl⟩ := h.split
  obtain ⟨warnings', hreach⟩ := @extractFrom_reaches limits F kind nameOf read err [] [] 0 before
    after f h.entries (by simpa using h.size)
  have hroom : ¬ ([] ++ before.filterMap (contentOf nameOf read)).length ≥
      limits.maxArchiveEntries := Nat.not_le.mpr h.entries
  rw [hreach, extractFrom, if_neg hroom]
  simp only [hname, hread]
  exact warnings_extractFrom (List.mem_append_right _ List.mem_cons_self)

variable (kind err) in
/-- An archive is said to be cut off where a file has more than is left. -/
theorem mem_warnings_of_over {name : String} {content : Bytes}
    (h : Reached limits nameOf read files before f) (hname : safeArchiveName (nameOf f) = some name)
    (hread : read f name = .ok content) (hover : limits.maxDecompressedBytes <
      sizeOf (before.filterMap (contentOf nameOf read)) + content.length) :
    kind ++ ": decompressed cap reached" ∈
      (extractFrom limits kind nameOf read err [] [] 0 files).warnings := by
  obtain ⟨after, rfl⟩ := h.split
  obtain ⟨warnings', hreach⟩ := @extractFrom_reaches limits F kind nameOf read err [] [] 0 before
    after f h.entries (by simpa using h.size)
  have hroom : ¬ ([] ++ before.filterMap (contentOf nameOf read)).length ≥
      limits.maxArchiveEntries := Nat.not_le.mpr h.entries
  have hsize := h.size
  have hcut : 0 + sizeOf (before.filterMap (contentOf nameOf read)) + (content.take
      (limits.maxDecompressedBytes - (0 + sizeOf (before.filterMap (contentOf nameOf read))) +
        1)).length > limits.maxDecompressedBytes := by
    rw [List.length_take]
    omega
  rw [hreach, extractFrom, if_neg hroom]
  simp only [hname, hread]
  rw [if_pos hcut]
  exact List.mem_append_right _ List.mem_cons_self

end Extraction

section Layers

/-- A file of a ZIP archive of which there is more than is left of the limit, in all that it gives
or by its header. -/
inductive ZipOver (f : ZipFile) (total : Nat) : Prop where
  | content {name : String} {content : Bytes} (hname : safeArchiveName f.name = some name)
      (hread : readZipFile x.limits f name = .ok content)
      (hover : x.limits.maxDecompressedBytes < total + content.length)
  | header {name : String} (hname : safeArchiveName f.name = some name)
      (hmode : f.mode &&& 0o170000 ≠ 0o120000)
      (hover : x.limits.maxDecompressedBytes < f.uncompressedSize)

/-- A layer that yields more than it is allowed to read. -/
inductive Overfull (v : Visit) : Prop where
  | zip {files before : List ZipFile} {f : ZipFile}
      (hformat : detectFormat x.cm v.name v.data = .zip) (hopen : x.readers.unzip v.data = .ok files)
      (hreached : Reached x.limits ZipFile.name (readZipFile x.limits) files before f)
      (hover : ZipOver x f
        (sizeOf (before.filterMap (contentOf ZipFile.name (readZipFile x.limits)))))
  | tar {before : List TarFile} {f : TarFile} {name : String} {content : Bytes}
      (hformat : detectFormat x.cm v.name v.data = .tar)
      (hreached : Reached x.limits TarFile.name readTarFile (x.readers.untar v.data).1 before f)
      (hname : safeArchiveName f.name = some name) (hread : readTarFile f name = .ok content)
      (hover : x.limits.maxDecompressedBytes <
        sizeOf (before.filterMap (contentOf TarFile.name readTarFile)) + content.length)
  | gzip {inner : Bytes} (hformat : detectFormat x.cm v.name v.data = .gzip)
      (hopen : x.readers.gunzip v.data = .ok inner)
      (hover : x.limits.maxDecompressedBytes < inner.length)

/-- A warning that something is cut off. -/
def CutOff (warning : String) : Prop :=
  warning = "zip: decompressed cap reached" ∨ warning = "tar: decompressed cap reached" ∨
    ∃ name, warning = "zip: skipped oversized entry " ++ name

variable {x} {v : Visit} {ms : Members}

theorem held_le (v : Visit) : v.held x ≤ x.limits.maxDecompressedBytes := by
  unfold Visit.held Visit.opened
  cases detectFormat x.cm v.name v.data with
  | zip =>
    change sizeOf (extractZip x.limits (x.readers.unzip v.data)).entries ≤ _
    cases x.readers.unzip v.data with
    | error err => exact Nat.zero_le _
    | ok files => exact size_extractFrom rfl (Nat.zero_le _)
  | tar => exact size_extractFrom rfl (Nat.zero_le _)
  | gzip =>
    change sizeOf (gzipMembers x v.name (x.readers.gunzip v.data)).entries ≤ _
    cases x.readers.gunzip v.data with
    | error err => exact Nat.zero_le _
    | ok inner => exact List.length_take_le _ _
  | elf | bin | ihex | srec | pem | unknown => exact Nat.zero_le _

/-- A ZIP or tar archive says that it is cut off. -/
theorem overfull_warned (h : Overfull x v) (hms : v.opened x = some ms)
    (hformat : detectFormat x.cm v.name v.data ≠ .gzip) : ∃ w ∈ ms.warnings, CutOff w := by
  unfold Visit.opened at hms
  cases h with
  | @zip files before f hzip hopen hreached hover =>
    rw [hzip] at hms
    obtain rfl := Option.some.inj hms
    rw [hopen]
    cases hover with
    | content hname hread hover =>
      exact ⟨_, List.mem_append_left _ (mem_warnings_of_over "zip" none hreached hname hread hover),
        .inl rfl⟩
    | @header name hname hmode hover =>
      have hread : readZipFile x.limits f name = .error ("zip: skipped oversized entry " ++ name) := by
        rw [readZipFile, if_neg hmode, if_pos hover]
      exact ⟨_, List.mem_append_left _ (mem_warnings_of_error "zip" none hreached hname hread),
        .inr (.inr ⟨name, rfl⟩)⟩
  | tar htar hreached hname hread hover =>
    rw [htar] at hms
    obtain rfl := Option.some.inj hms
    exact ⟨_, List.mem_append_left _ (mem_warnings_of_over "tar" _ hreached hname hread hover),
      .inr (.inl rfl)⟩
  | gzip hgzip => exact absurd hgzip hformat

/-- A gzip file that can be read has no warning of its own. -/
theorem gzip_warnings {inner : Bytes} (hformat : detectFormat x.cm v.name v.data = .gzip)
    (hopen : x.readers.gunzip v.data = .ok inner) : ∃ ms, v.opened x = some ms ∧ ms.warnings = [] := by
  unfold Visit.opened
  rw [hformat]
  refine ⟨gzipMembers x v.name (x.readers.gunzip v.data), rfl, ?_⟩
  rw [hopen]
  rfl

end Layers

section Runs

variable {x} {left depth : Nat} {name : String} {data : Bytes} {rep : Report} {v : Visit}
  {ms : Members}

theorem depth_visits (h : v ∈ visits x left depth name data) :
    depth ≤ v.depth ∧ v.depth < depth + left := by
  induction left generalizing depth name data with
  | zero => exact nomatch h
  | succ left ih =>
    rw [visits] at h
    obtain rfl | h := List.mem_cons.mp h
    · exact ⟨Nat.le_refl _, Nat.lt_add_of_pos_right (Nat.succ_pos left)⟩
    cases hms : members x (detectFormat x.cm name data) name data with
    | none =>
      rw [hms] at h
      exact nomatch h
    | some ms =>
      rw [hms] at h
      obtain ⟨e, -, he⟩ := List.mem_flatMap.mp h
      have hrest := ih he
      omega

theorem warnings_foldl (mark : String → String) (analyze : ArchiveEntry → Except String Report)
    (entries : List ArchiveEntry) (rep : Report) :
    rep.warnings ⊆ (entries.foldl (mergeMember mark analyze) rep).warnings ∧
      ∀ e ∈ entries, ∀ child, analyze e = .ok child →
        child.warnings ⊆ (entries.foldl (mergeMember mark analyze) rep).warnings := by
  induction entries generalizing rep with
  | nil => exact ⟨fun _ h => h, nofun⟩
  | cons e entries ih =>
    obtain ⟨hkeep, hmembers⟩ := ih (mergeMember mark analyze rep e)
    have hstep : rep.warnings ⊆ (mergeMember mark analyze rep e).warnings := by
      unfold mergeMember
      cases analyze e with
      | error err => exact List.subset_append_left _ _
      | ok child => exact List.subset_append_left _ _
    refine ⟨List.Subset.trans hstep hkeep, List.forall_mem_cons.mpr ⟨fun child hchild => ?_, hmembers⟩⟩
    have hmerged : child.warnings ⊆ (mergeMember mark analyze rep e).warnings := by
      rw [mergeMember, hchild]
      exact List.subset_append_right _ _
    exact List.Subset.trans hmerged hkeep

/-- What a layer warns of is in the report. -/
theorem warnings_visits (hrep : analyzeDepth x left name data = .ok rep)
    (hv : v ∈ visits x left depth name data) (hms : v.opened x = some ms) :
    ms.warnings ⊆ rep.warnings := by
  induction left generalizing depth name data rep with
  | zero => exact nomatch hrep
  | succ left ih =>
    rw [visits] at hv
    cases hmembers : members x (detectFormat x.cm name data) name data with
    | none =>
      rw [hmembers] at hv
      obtain rfl := List.mem_singleton.mp hv
      exact nomatch hmembers.symm.trans hms
    | some ms' =>
      rw [hmembers] at hv
      rw [analyzeDepth_members hmembers] at hrep
      obtain rfl := Except.ok.inj hrep
      obtain ⟨hkeep, hchildren⟩ := warnings_foldl ms'.mark
        (fun e => analyzeDepth x left e.name e.data) ms'.entries
        { newReport x name data with warnings := ms'.warnings }
      obtain rfl | hv := List.mem_cons.mp hv
      · obtain rfl := Option.some.inj (hmembers.symm.trans hms)
        exact hkeep
      · obtain ⟨e, he, hv⟩ := List.mem_flatMap.mp hv
        cases hchild : analyzeDepth x left e.name e.data with
        | error err =>
          cases left with
          | zero => exact nomatch hv
          | succ left =>
            cases hinner : members x (detectFormat x.cm e.name e.data) e.name e.data with
            | none => exact nomatch (analyzeDepth_image hinner).symm.trans hchild
            | some inner => exact nomatch (analyzeDepth_members hinner).symm.trans hchild
        | ok child =>
          exact List.Subset.trans (ih hchild hv) (hchildren e he child hchild)

end Runs

end RivicQ.Firmware.Unpacking
