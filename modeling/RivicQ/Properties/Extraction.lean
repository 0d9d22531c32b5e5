import RivicQ.Firmware.Unpacking

namespace RivicQ.Properties.Unpacking

open RivicQ.Lib.Bytes RivicQ.Firmware.Archives RivicQ.Firmware.Formats RivicQ.Firmware.Reports
open RivicQ.Firmware.Analysis
open RivicQ.Firmware.Unpacking

/-- The analysis of an artifact ends, within the depth, retains no more than the limit over all of
its layers, and says where a layer is cut off. -/
structure Bounded (x : Setup) (name : String) (data : Bytes) : Prop where
  terminates : ∃ rep, analyzeBytes x name data = .ok rep
  depth : ∀ v ∈ calls x name data, v.depth ≤ x.limits.maxArchiveDepth
  total : ((calls x name data).map (Visit.held x)).sum ≤ x.limits.maxDecompressedBytes
  warned : ∀ rep, analyzeBytes x name data = .ok rep → ∀ v ∈ calls x name data, Overfull x v →
    ∃ ms w, v.opened x = some ms ∧ w ∈ ms.warnings ∧ CutOff w ∧ w ∈ rep.warnings

variable {x : Setup} {name : String} {data : Bytes}

theorem calls_cons : calls x name data = ⟨0, name, data⟩ :: (calls x name data).tail := rfl

theorem depth_calls (v : Visit) (h : v ∈ calls x name data) : v.depth ≤ x.limits.maxArchiveDepth := by
  have hdepth := depth_visits h
  omega

theorem exists_analyzed : ∃ rep, analyzeBytes x name data = .ok rep := by
  unfold analyzeBytes
  cases hmembers : members x (detectFormat x.cm name data) name data with
  | none => exact ⟨_, analyzeDepth_image hmembers⟩
  | some ms => exact ⟨_, analyzeDepth_members hmembers⟩

theorem opened_of_overfull {v : Visit} (h : Overfull x v) : ∃ ms, v.opened x = some ms := by
  unfold Visit.opened
  cases h with
  | zip hformat => exact hformat ▸ ⟨_, rfl⟩
  | tar hformat => exact hformat ▸ ⟨_, rfl⟩
  | gzip hformat => exact hformat ▸ ⟨_, rfl⟩

section Nested

/-- A gzip file of one byte, as a stored block. -/
def innerFile : Bytes :=
  [0x1f, 0x8b, 0x08, 0x00, 0x00, 0x00, 0x00, 0x00, 0x00, 0xff, 0x01, 0x01, 0x00, 0xfe, 0xff, 0x61,
    0x43, 0xbe, 0xb7, 0xe8, 0x01, 0x00, 0x00, 0x00]

/-- A gzip file of that gzip file. -/
def outerFile : Bytes :=
  [0x1f, 0x8b, 0x08, 0x00, 0x00, 0x00, 0x00, 0x00, 0x00, 0xff, 0x01, 0x18, 0x00, 0xe7, 0xff] ++
    innerFile ++ [0x0a, 0x36, 0x9b, 0xa6, 0x18, 0x00, 0x00, 0x00]

/-- A limit that the inner gzip file just meets, and readers that know the two files. -/
def setup : Setup where
  cm := RivicQ.Lib.GoStrings.asciiCase
  decoders := { pemDecode := fun _ => none, parseCertificate := fun _ => none
                sha256 := fun _ => [] }
  readers :=
    { unzip := fun _ => .error "zip: not a valid zip file"
      untar := fun _ => ([], some "archive/tar: invalid tar header")
      gunzip := fun data =>
        if data = outerFile then .ok innerFile
        else if data = innerFile then .ok (ascii "a")
        else .error "gzip: invalid header" }
  elf := fun _ => .error "bad magic number"
  profile := {}
  limits := { maxDecompressedBytes := 24, maxArchiveEntries := 2048, maxArchiveDepth := 4 }

end Nested

end RivicQ.Properties.Unpacking

namespace RivicQ.Properties.Extraction

open RivicQ.Lib.Bytes RivicQ.Lib.FilePaths RivicQ.Firmware.Archives RivicQ.Firmware.Unpacking
open RivicQ.Lib.GoStrings (hasPrefix contains)

/-- A cleaned relative path that stays below where it starts, on systems with either separator. -/
structure SafeName (name : String) : Prop where
  nonempty : name ≠ ""
  cleaned : clean name = name
  relative : isAbs name = false
  below : dotdot ∉ name.toList.splitOn '/'
  slashed : '\\' ∉ name.toList

/-- What is promised of the entries of an archive with some files. -/
structure Extracts {F : Type} (limits : Limits) (nameOf : F → String)
    (read : F → String → Except String Bytes) (files : List F) (entries : List ArchiveEntry) :
    Prop where
  count : entries.length ≤ limits.maxArchiveEntries
  size : (entries.map fun e => e.data.length).sum ≤ limits.maxDecompressedBytes
  order : ∃ chosen, chosen.Sublist files ∧ List.Forall₂ (fun f e =>
    safeArchiveName (nameOf f) = some e.name ∧ read f e.name = .ok e.data) chosen entries
  names : ∀ e ∈ entries, SafeName e.name

section Names

theorem elements_of_relative {path : String} (h : isAbs path = false) (hdot : clean path ≠ ".") :
    elements path ≠ [] ∧ (clean path).toList = ['/'].intercalate (elements path) := by
  have htext : (clean path).toList = render false (elements path) := by
    rw [clean, String.toList_ofList, h]
  have hne : elements path ≠ [] := by
    intro hnil
    rw [hnil] at htext
    exact hdot (String.toList_inj.mp htext)
  refine ⟨hne, ?_⟩
  rw [htext, render, if_neg Bool.false_ne_true, if_neg hne]

theorem safeName_of_safe {name safe : String} (h : safeArchiveName name = some safe) :
    SafeName safe := by
  unfold safeArchiveName at h
  generalize hslashed : String.ofList (name.toList.map fun c => if c = '\\' then '/' else c) =
    path at h
  simp only at h
  split_ifs at h with hempty hunsafe
  cases h
  obtain ⟨hdot, hne⟩ := not_or.mp hempty
  simp only [Bool.or_eq_true, decide_eq_true_eq, not_or] at hunsafe
  obtain ⟨⟨⟨habs, hfront⟩, -⟩, hup⟩ := hunsafe
  have hrelative : isAbs (clean path) = false := Bool.eq_false_iff.mpr habs
  obtain ⟨helements, htext⟩ := elements_of_relative (isAbs_clean.symm.trans hrelative) hdot
  have hslash : ∀ e ∈ elements path, '/' ∉ e := fun e he => slash_not_mem_elements he
  refine ⟨hne, clean_clean, hrelative, fun hmem => ?_, fun hmem => ?_⟩
  · rw [htext, split_intercalate helements hslash] at hmem
    have hrooted : isAbs path = false := isAbs_clean.symm.trans hrelative
    -- what leads up stands first, and that is refused
    have hhead : (elements path).head? = some dotdot := by
      rw [elements, hrooted] at hmem ⊢
      exact head_reduce hmem
    have hclean : clean path = String.ofList (['/'].intercalate (elements path)) := by
      rw [← htext, String.ofList_toList]
    rw [hclean] at hfront hup
    obtain h | h := (leads_up helements hslash).mpr hhead
    · exact hup h
    · exact hfront h
  · obtain h | h | h := mem_clean hmem
    · rw [← hslashed, String.toList_ofList] at h
      obtain ⟨c, -, hc⟩ := List.mem_map.mp h
      split_ifs at hc with hback
      · exact absurd hc (by decide)
      · exact hback hc
    · exact absurd h (by decide)
    · exact absurd h (by decide)

end Names

section Loop

variable {limits : Limits} {F : Type} {kind : String} {nameOf : F → String}
  {read : F → String → Except String Bytes} {err : Option String}
  {out : List ArchiveEntry} {warnings : List String} {total : Nat} {files : List F}

/-- The entries are what some first part of the files gives. -/
theorem prefix_extractFrom :
    ∃ before, before <+: files ∧
      (extractFrom limits kind nameOf read err out warnings total files).entries =
        out ++ before.filterMap (contentOf nameOf read) := by
  have hnone : ∃ before, before <+: files ∧
      out = out ++ before.filterMap (contentOf nameOf read) :=
    ⟨[], List.nil_prefix, (List.append_nil out).symm⟩
  induction files generalizing out warnings total with
  | nil => exact hnone
  | cons f files ih =>
    have hskip : contentOf nameOf read f = none → ∀ warnings total,
        ∃ before, before <+: f :: files ∧
          (extractFrom limits kind nameOf read err out warnings total files).entries =
            out ++ before.filterMap (contentOf nameOf read) := by
      intro hpassed warnings total
      obtain ⟨before, hbefore, heq⟩ := @ih out warnings total
        ⟨[], List.nil_prefix, (List.append_nil out).symm⟩
      refine ⟨f :: before, List.cons_prefix_cons.mpr ⟨rfl, hbefore⟩, ?_⟩
      rw [List.filterMap_cons_none hpassed, heq]
    rw [extractFrom]
    split_ifs with hentries
    · exact hnone
    cases hname : safeArchiveName (nameOf f) with
    | none => exact hskip (by simp only [contentOf, hname]) _ _
    | some name =>
      cases hread : read f name with
      | error warning =>
        simp only [hread]
        exact hskip (by simp only [contentOf, hname, hread]) _ _
      | ok content =>
        simp only [hread]
        split_ifs with hover
        · exact hnone
        · -- a content that is not over the limit is read to its end
          have htake : content.take (limits.maxDecompressedBytes - total + 1) = content := by
            rw [List.length_take] at hover
            exact List.take_of_length_le (by omega)
          obtain ⟨before, hbefore, heq⟩ := @ih (out ++ [⟨name, content⟩]) warnings
            (total + content.length) ⟨[], List.nil_prefix, (List.append_nil _).symm⟩
          refine ⟨f :: before, List.cons_prefix_cons.mpr ⟨rfl, hbefore⟩, ?_⟩
          have hkeep : contentOf nameOf read f = some ⟨name, content⟩ := by
            simp only [contentOf, hname, hread]
          rw [htake, heq, List.filterMap_cons_some hkeep, List.append_assoc, List.singleton_append]

theorem length_extractFrom (hout : out.length ≤ limits.maxArchiveEntries) :
    (extractFrom limits kind nameOf read err out warnings total files).entries.length ≤
      limits.maxArchiveEntries := by
  induction files generalizing out warnings total with
  | nil => exact hout
  | cons f files ih =>
    rw [extractFrom]
    split_ifs with hentries
    · exact hout
    cases hname : safeArchiveName (nameOf f) with
    | none => exact ih hout
    | some name =>
      cases hread : read f name with
      | error warning =>
        simp only [hread]
        exact ih hout
      | ok content =>
        simp only [hread]
        split_ifs with hover
        · exact hout
        · refine ih ?_
          rw [List.length_append, List.length_singleton]
          omega

theorem contentOf_eq_some {f : F} {e : ArchiveEntry} (h : contentOf nameOf read f = some e) :
    safeArchiveName (nameOf f) = some e.name ∧ read f e.name = .ok e.data := by
  unfold contentOf at h
  cases hname : safeArchiveName (nameOf f) with
  | none =>
    rw [hname] at h
    exact nomatch h
  | some name =>
    simp only [hname] at h
    cases hread : read f name with
    | error warning =>
      rw [hread] at h
      exact nomatch h
    | ok content =>
      rw [hread] at h
      cases h
      exact ⟨rfl, hread⟩

/-- What a list gives is given by some of its items, one by one. -/
theorem forall₂_filterMap {A B : Type} (g : A → Option B) (items : List A) :
    ∃ chosen, chosen.Sublist items ∧
      List.Forall₂ (fun a b => g a = some b) chosen (items.filterMap g) := by
  induction items with
  | nil => exact ⟨[], List.Sublist.refl _, .nil⟩
  | cons a items ih =>
    obtain ⟨chosen, hsub, hgiven⟩ := ih
    cases ha : g a with
    | none =>
      rw [List.filterMap_cons_none ha]
      exact ⟨chosen, hsub.cons a, hgiven⟩
    | some b =>
      rw [List.filterMap_cons_some ha]
      exact ⟨a :: chosen, hsub.cons_cons a, .cons ha hgiven⟩

theorem extracts_extractFrom (kind : String) (err : Option String) : Extracts limits nameOf read
    files (extractFrom limits kind nameOf read err [] [] 0 files).entries := by
  obtain ⟨before, hbefore, heq⟩ := @prefix_extractFrom limits F kind nameOf read err [] [] 0 files
  rw [List.nil_append] at heq
  refine ⟨length_extractFrom (Nat.zero_le _), size_extractFrom rfl (Nat.zero_le _), ?_, ?_⟩
  · obtain ⟨chosen, hsub, hgiven⟩ := forall₂_filterMap (contentOf nameOf read) before
    rw [heq]
    exact ⟨chosen, hsub.trans hbefore.sublist, hgiven.imp fun _ _ h => contentOf_eq_some h⟩
  · intro e he
    rw [heq] at he
    obtain ⟨f, -, hgiven⟩ := List.mem_filterMap.mp he
    exact safeName_of_safe (contentOf_eq_some hgiven).1

end Loop

/-- Whatever an archive holds and however it ends, its entries are few, small, in order and safely
named. -/
theorem archives_bounded (limits : Limits) (files : Except String (List ZipFile))
    (stream : List TarFile × Option String) :
    Extracts limits ZipFile.name (readZipFile limits) (files.toOption.getD [])
        (extractZip limits files).entries ∧
      Extracts limits TarFile.name readTarFile stream.1 (extractTar limits stream).entries := by
  refine ⟨?_, extracts_extractFrom "tar" stream.2⟩
  cases files with
  | error err =>
    exact ⟨Nat.zero_le _, Nat.zero_le _, ⟨[], List.nil_sublist _, .nil⟩, fun e he => nomatch he⟩
  | ok files => exact extracts_extractFrom "zip" none

end RivicQ.Properties.Extraction
