import RivicQ.Firmware.Archives
import RivicQ.Firmware.Unpacking

namespace RivicQ.Properties.Members

open RivicQ.Lib.Bytes RivicQ.Firmware.Archives RivicQ.Firmware.Packing RivicQ.Firmware.Unpacking

variable {limits : Limits} {members : List Member}

/-- The entries of the regular files that are safely named. -/
def regularEntries (members : List Member) : List ArchiveEntry :=
  (members.filter fun m => m.kind = .regular).filterMap Member.entry

variable (limits members) in
/-- Members that neither limit cuts off. -/
structure Within : Prop where
  entries : members.length ≤ limits.maxArchiveEntries
  size : (members.map fun m => m.content.length).sum ≤ limits.maxDecompressedBytes

variable (limits members) in
def zipped : Extracted := extractZip limits (.ok (members.map Member.zipFile))

variable (limits members) in
def tarred : Extracted := extractTar limits (members.map Member.tarFile, none)

theorem size_cons (name : String) (content : Bytes) (entries : List ArchiveEntry) :
    RivicQ.Firmware.Unpacking.sizeOf (⟨name, content⟩ :: entries) =
      content.length + RivicQ.Firmware.Unpacking.sizeOf entries := List.sum_cons

section Loop

variable {F : Type} {kind : String} {nameOf : F → String}
  {read : F → String → Except String Bytes} {err : Option String}
  {out : List ArchiveEntry} {warnings : List String} {total : Nat} {files : List F}

variable (kind err warnings) in
/-- Within the limits, the entries are all that the files give. -/
theorem extractFrom_within
    (hentries : (out ++ files.filterMap (contentOf nameOf read)).length ≤ limits.maxArchiveEntries)
    (hsize : total + RivicQ.Firmware.Unpacking.sizeOf (files.filterMap (contentOf nameOf read)) ≤
      limits.maxDecompressedBytes) :
    (extractFrom limits kind nameOf read err out warnings total files).entries =
      out ++ files.filterMap (contentOf nameOf read) := by
  induction files generalizing out warnings total with
  | nil => exact (List.append_nil out).symm
  | cons f files ih =>
    rw [extractFrom]
    split_ifs with hfull
    · -- there is no room left, and nothing that asks for it
      rw [List.length_append] at hentries
      have hnil : (f :: files).filterMap (contentOf nameOf read) = [] :=
        List.length_eq_zero_iff.mp (by omega)
      rw [hnil, List.append_nil]
    cases hname : safeArchiveName (nameOf f) with
    | none =>
      have hskip : contentOf nameOf read f = none := by simp only [contentOf, hname]
      rw [List.filterMap_cons_none hskip] at hentries hsize ⊢
      exact ih _ hentries hsize
    | some name =>
      cases hread : read f name with
      | error warning =>
        have hskip : contentOf nameOf read f = none := by simp only [contentOf, hname, hread]
        rw [List.filterMap_cons_none hskip] at hentries hsize ⊢
        simp only [hread]
        exact ih _ hentries hsize
      | ok content =>
        have hkeep : contentOf nameOf read f = some ⟨name, content⟩ := by
          simp only [contentOf, hname, hread]
        rw [List.filterMap_cons_some hkeep] at hentries hsize ⊢
        rw [size_cons] at hsize
        have htake : content.take (limits.maxDecompressedBytes - total + 1) = content :=
          List.take_of_length_le (by omega)
        simp only [hread, htake]
        rw [if_neg (by omega), ih _ (by simpa using hentries) (by omega), List.append_assoc,
          List.singleton_append]

end Loop

section Contents

variable {F : Type} {nameOf : F → String} {read : F → String → Except String Bytes} {f : F}
  {m : Member}

theorem contentOf_eq_entry (hname : nameOf f = m.name)
    (hread : ∀ name, read f name = .ok m.content) : contentOf nameOf read f = m.entry := by
  unfold contentOf Member.entry
  rw [hname]
  cases safeArchiveName m.name with
  | none => rfl
  | some name => simp only [hread, Option.map_some]

theorem contentOf_eq_none (hread : ∀ name, ∃ warning, read f name = .error warning) :
    contentOf nameOf read f = none := by
  unfold contentOf
  cases safeArchiveName (nameOf f) with
  | none => rfl
  | some name =>
    obtain ⟨warning, hwarning⟩ := hread name
    simp only [hwarning]

theorem contentOf_zipFile (h : m.content.length ≤ limits.maxDecompressedBytes) :
    contentOf ZipFile.name (readZipFile limits) m.zipFile = m.entry := by
  refine contentOf_eq_entry rfl fun name => ?_
  -- the mode has no bits at all where those of a symbolic link are looked for
  have hmode : ¬ m.zipFile.mode &&& 0o170000 = 0o120000 := by
    rw [show m.zipFile.mode = m.fileMode from rfl, fileMode_and m]
    decide
  have hsize : ¬ m.zipFile.uncompressedSize > limits.maxDecompressedBytes := Nat.not_lt.mpr h
  have hopens : ¬ (!m.zipFile.opens) = true := Bool.false_ne_true
  have hcontent : m.zipFile.content = some m.content := rfl
  rw [readZipFile, if_neg hmode, if_neg hsize, if_neg hopens, hcontent]

theorem contentOf_tarFile (m : Member) : contentOf TarFile.name readTarFile m.tarFile =
    if m.kind = .regular then m.entry else none := by
  have hregular : m.tarFile.regular = decide (m.kind = .regular) := rfl
  have hcontent : m.tarFile.content = some m.content := rfl
  split_ifs with hkind
  · refine contentOf_eq_entry rfl fun name => ?_
    rw [readTarFile, hregular, decide_eq_true hkind, if_neg (by decide), hcontent]
  · refine contentOf_eq_none fun name => ⟨"tar: skipped non-regular " ++ name, ?_⟩
    rw [readTarFile, hregular, decide_eq_false hkind, if_pos (by decide)]

variable {give : Member → Option ArchiveEntry}

theorem size_le (hgive : ∀ m e, give m = some e → e.data = m.content) (members : List Member) :
    RivicQ.Firmware.Unpacking.sizeOf (members.filterMap give) ≤
      (members.map fun m => m.content.length).sum := by
  induction members with
  | nil => exact Nat.le_refl 0
  | cons m members ih =>
    rw [List.map_cons, List.sum_cons]
    cases hentry : give m with
    | none =>
      rw [List.filterMap_cons_none hentry]
      omega
    | some e =>
      rw [List.filterMap_cons_some hentry, size_cons, hgive m e hentry]
      omega

/-- The loop on a packed archive, by what it makes of each member. -/
theorem entries_within (kind : String) {pack : Member → F} (h : Within limits members)
    (hpack : ∀ m ∈ members, contentOf nameOf read (pack m) = give m)
    (hgive : ∀ m e, give m = some e → e.data = m.content) :
    (extractFrom limits kind nameOf read none [] [] 0 (members.map pack)).entries =
      members.filterMap give := by
  have hgiven : (members.map pack).filterMap (contentOf nameOf read) = members.filterMap give := by
    rw [List.filterMap_map]
    apply List.filterMap_congr
    intro m hm
    rw [Function.comp_apply]
    exact hpack m hm
  have hlength : ([] ++ (members.map pack).filterMap (contentOf nameOf read)).length ≤
      limits.maxArchiveEntries := by
    rw [List.nil_append, hgiven]
    exact (List.length_filterMap_le give members).trans h.entries
  have hsize : 0 + RivicQ.Firmware.Unpacking.sizeOf
      ((members.map pack).filterMap (contentOf nameOf read)) ≤ limits.maxDecompressedBytes := by
    rw [Nat.zero_add, hgiven]
    exact (size_le hgive members).trans h.size
  rw [extractFrom_within kind none [] hlength hsize, List.nil_append, hgiven]

theorem data_of_entry {m : Member} {e : ArchiveEntry} (h : m.entry = some e) :
    e.data = m.content := by
  obtain ⟨name, -, rfl⟩ := Option.map_eq_some_iff.mp h
  rfl

theorem length_le_size {m : Member} (hm : m ∈ members) :
    m.content.length ≤ (members.map fun m => m.content.length).sum := by
  obtain ⟨before, after, rfl⟩ := List.append_of_mem hm
  rw [List.map_append, List.map_cons, List.sum_append, List.sum_cons]
  omega

theorem zipped_entries (h : Within limits members) :
    (zipped limits members).entries = members.filterMap Member.entry := by
  have hpack : ∀ m ∈ members,
      contentOf ZipFile.name (readZipFile limits) m.zipFile = m.entry := by
    intro m hm
    exact contentOf_zipFile ((length_le_size hm).trans h.size)
  unfold zipped extractZip
  exact entries_within "zip" h hpack fun _ _ => data_of_entry

/-- What a tar stream gives of a member. -/
def regularEntry (m : Member) : Option ArchiveEntry :=
  if m.kind = .regular then m.entry else none

theorem regularEntry_eq_or (m : Member) : regularEntry m = m.entry ∨ regularEntry m = none := by
  unfold regularEntry
  split_ifs with hkind
  · exact .inl rfl
  · exact .inr rfl

theorem regularEntries_eq : regularEntries members = members.filterMap regularEntry := by
  rw [regularEntries, List.filterMap_filter]
  exact List.filterMap_congr fun m _ => by simp only [regularEntry, decide_eq_true_eq]

theorem tarred_entries (h : Within limits members) :
    (tarred limits members).entries = regularEntries members := by
  have hgive : ∀ m e, regularEntry m = some e → e.data = m.content := by
    intro m e he
    refine data_of_entry ((regularEntry_eq_or m).elim (fun heq => heq ▸ he) fun hnone => ?_)
    exact absurd (hnone.symm.trans he) nofun
  rw [regularEntries_eq]
  unfold tarred extractTar
  exact entries_within "tar" h (fun m _ => contentOf_tarFile m) hgive

end Contents

section Losses

variable {α β : Type} {f g : α → Option β}

theorem length_filterMap_mono (h : ∀ a, g a = f a ∨ g a = none) (l : List α) :
    (l.filterMap g).length ≤ (l.filterMap f).length := by
  induction l with
  | nil => exact Nat.le_refl 0
  | cons a l ih =>
    rcases h a with heq | hnone
    · rw [List.filterMap_cons, List.filterMap_cons, heq]
      cases f a with
      | none => exact ih
      | some b => exact Nat.succ_le_succ ih
    · rw [List.filterMap_cons_none hnone]
      refine ih.trans ?_
      rw [List.filterMap_cons]
      cases f a with
      | none => exact Nat.le_refl _
      | some b => exact Nat.le_succ _

/-- Nothing is lost on the whole exactly if nothing is lost anywhere. -/
theorem filterMap_eq_iff (h : ∀ a, g a = f a ∨ g a = none) {l : List α} :
    l.filterMap f = l.filterMap g ↔ ∀ a ∈ l, f a = g a := by
  refine ⟨fun heq => ?_, fun heq => List.filterMap_congr heq⟩
  induction l with
  | nil => exact fun a ha => nomatch ha
  | cons a l ih =>
    rw [List.forall_mem_cons]
    rcases h a with hsame | hnone
    · refine ⟨hsame.symm, ih ?_⟩
      rw [List.filterMap_cons, List.filterMap_cons, hsame] at heq
      cases hf : f a with
      | none => rwa [hf] at heq
      | some b =>
        rw [hf] at heq
        exact (List.cons.inj heq).2
    · rw [List.filterMap_cons_none hnone] at heq
      cases hf : f a with
      | none =>
        rw [List.filterMap_cons_none hf] at heq
        exact ⟨hnone.symm, ih heq⟩
      | some b =>
        rw [List.filterMap_cons_some hf] at heq
        have hlength := length_filterMap_mono h l
        rw [← heq, List.length_cons] at hlength
        omega

end Losses

theorem entry_eq_iff (m : Member) : m.entry = regularEntry m ↔
    ((safeArchiveName m.name).isSome = true → m.kind = .regular) := by
  have hsome : m.entry.isSome = (safeArchiveName m.name).isSome := Option.isSome_map
  rw [← hsome, regularEntry]
  by_cases hkind : m.kind = .regular
  · rw [if_pos hkind]
    exact iff_of_true rfl fun _ => hkind
  · rw [if_neg hkind]
    constructor
    · intro hnone h
      rw [hnone] at h
      exact absurd h Bool.false_ne_true
    · intro h
      exact Option.not_isSome_iff_eq_none.mp fun hsafe => hkind (h hsafe)

variable (limits members) in
/-- The two formats give the same, which is the regular files. -/
def Same : Prop :=
  (zipped limits members).entries = (tarred limits members).entries ∧
    (tarred limits members).entries = regularEntries members

/-- Within the limits, the formats give the same exactly if all that is safely named is a regular
file. -/
theorem same_iff (h : Within limits members) : Same limits members ↔
    ∀ m ∈ members, (safeArchiveName m.name).isSome = true → m.kind = .regular := by
  unfold Same
  rw [zipped_entries h, tarred_entries h, and_iff_left rfl, regularEntries_eq,
    filterMap_eq_iff regularEntry_eq_or]
  exact forall₂_congr fun m _ => entry_eq_iff m

def oneFile : Limits where
  maxDecompressedBytes := 1
  maxArchiveEntries := 1
  maxArchiveDepth := 0

def member (kind : Kind) (h : kind ≠ .directory) : Member where
  name := "a"
  kind := kind
  content := [47]
  slash := nofun
  empty hdirectory := absurd hdirectory h

def file : Member := member .regular nofun

theorem same_file : Same oneFile [file] := by
  have hwithin : Within oneFile [file] := ⟨Nat.le_refl 1, Nat.le_refl 1⟩
  refine (same_iff hwithin).mpr fun m hm _ => ?_
  rw [List.mem_singleton.mp hm]
  rfl

/-- A symbolic link to the root of the host. -/
def link : Member := member .symlink nofun

theorem entry_link : link.entry = some ⟨"a", [47]⟩ := by
  have hname : safeArchiveName link.name = some "a" := by decide
  rw [Member.entry, hname]
  rfl

/-- A ZIP archive gives the link as a file, and a tar stream gives nothing. -/
theorem link_unpacked : Within oneFile [link] ∧ link.kind = .symlink ∧
    (zipped oneFile [link]).entries = [⟨"a", [47]⟩] ∧ (tarred oneFile [link]).entries = [] ∧
    ¬ Same oneFile [link] := by
  have hwithin : Within oneFile [link] := ⟨Nat.le_refl 1, Nat.le_refl 1⟩
  have hzipped : (zipped oneFile [link]).entries = [⟨"a", [47]⟩] := by
    rw [zipped_entries hwithin, List.filterMap_cons_some entry_link, List.filterMap_nil]
  have htarred : (tarred oneFile [link]).entries = [] := tarred_entries hwithin
  refine ⟨hwithin, rfl, hzipped, htarred, fun h => ?_⟩
  rw [Same, hzipped, htarred] at h
  exact absurd h.1 nofun

end RivicQ.Properties.Members
