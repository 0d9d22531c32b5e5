import RivicQ.Firmware.Analysis

namespace RivicQ.Firmware.Nesting

open RivicQ.Lib.Bytes RivicQ.Lib.Groups RivicQ.Cryptoscan.Detect RivicQ.Certeng.Certificates
open RivicQ.Firmware.Archives RivicQ.Firmware.Formats RivicQ.Firmware.Reports
open RivicQ.Firmware.Analysis

variable (x : Setup)

/-- The size of a content that can be read. -/
def contentSize (content : Option Bytes) : Nat := (content.getD []).length

/-- An archive of some format and name holds some bytes, and a member of that name, within the
limits; a file in a gzip file gets its name from the file. -/
inductive Wraps : Format → String → Bytes → String → Bytes → Prop where
  | zip {outerName name : String} {outer inner : Bytes} {files : List ZipFile} {f : ZipFile}
      (hopen : x.readers.unzip outer = .ok files) (hfile : f ∈ files)
      (hname : safeArchiveName f.name = some name) (hregular : f.mode &&& 0o170000 ≠ 0o120000)
      (hopens : f.opens = true) (hcontent : f.content = some inner)
      (hclaimed : f.uncompressedSize = inner.length)
      (hsize : (files.map fun f => contentSize f.content).sum ≤ x.limits.maxDecompressedBytes)
      (hentries : files.length ≤ x.limits.maxArchiveEntries) :
      Wraps .zip outerName outer name inner
  | tar {outerName name : String} {outer inner : Bytes} {files : List TarFile} {f : TarFile}
      {err : Option String} (hopen : x.readers.untar outer = (files, err)) (hfile : f ∈ files)
      (hname : safeArchiveName f.name = some name) (hregular : f.regular = true)
      (hcontent : f.content = some inner)
      (hsize : (files.map fun f => contentSize f.content).sum ≤ x.limits.maxDecompressedBytes)
      (hentries : files.length ≤ x.limits.maxArchiveEntries) :
      Wraps .tar outerName outer name inner
  | gzip {outerName : String} {outer inner : Bytes} (hopen : x.readers.gunzip outer = .ok inner)
      (hsize : inner.length ≤ x.limits.maxDecompressedBytes) :
      Wraps .gzip outerName outer (childName outerName) inner

/-- A layer of a nesting: the format it is made in, its name and its bytes. -/
structure Layer where
  format : Format
  name : String
  bytes : Bytes

/-- An artifact in layers of archives, the outermost one first, where it is stored by some name. -/
inductive Nests (stored : String) (artifact : Bytes) : List Layer → String → Bytes → Prop where
  | artifact : Nests stored artifact [] stored artifact
  | wrap {format : Format} {outerName name : String} {outer inner : Bytes} {layers : List Layer}
      (hwraps : Wraps x format outerName outer name inner)
      (hinner : Nests stored artifact layers name inner) :
      Nests stored artifact (⟨format, outerName, outer⟩ :: layers) outerName outer

/-- The layer is taken for what it is. -/
def Recognised (l : Layer) : Prop := detectFormat x.cm l.name l.bytes = l.format

/-- So many levels are enough to analyse an artifact to the bottom. -/
def Fits : Nat → String → Bytes → Prop
  | 0, _, _ => False
  | left + 1, name, data =>
    ∀ ms, members x (detectFormat x.cm name data) name data = some ms →
      ∀ e ∈ ms.entries, Fits left e.name e.data

/-- An artifact is taken for the same by two names, and so is what it holds if it is a gzip
file. -/
def Alike : Nat → String → String → Bytes → Prop
  | 0, _, _, _ => True
  | left + 1, own, stored, data =>
    detectFormat x.cm own data = detectFormat x.cm stored data ∧
    (detectFormat x.cm stored data = .gzip → ∀ inner, x.readers.gunzip data = .ok inner →
      Alike left (childName own) (childName stored)
        (inner.take x.limits.maxDecompressedBytes))

section Names

/-- All that is named in one report is named in another. -/
structure Subsumed (a b : Named) : Prop where
  libraries : a.libraries ⊆ b.libraries
  algorithms : a.algorithms ⊆ b.algorithms
  cryptoAPIs : a.cryptoAPIs ⊆ b.cryptoAPIs
  protocols : a.protocols ⊆ b.protocols
  rules : a.rules ⊆ b.rules
  certificates : a.certificates ⊆ b.certificates

variable {x} {a b c : Named} {rep parent child : Report} {mark : String → String}
  {analyze : ArchiveEntry → Except String Report} {entries : List ArchiveEntry}

theorem subsumed_refl (a : Named) : Subsumed a a :=
  ⟨subset_rfl, subset_rfl, subset_rfl, subset_rfl, subset_rfl, subset_rfl⟩

theorem subsumed_trans (h : Subsumed a b) (h' : Subsumed b c) : Subsumed a c :=
  ⟨h.libraries.trans h'.libraries, h.algorithms.trans h'.algorithms,
    h.cryptoAPIs.trans h'.cryptoAPIs, h.protocols.trans h'.protocols, h.rules.trans h'.rules,
    h.certificates.trans h'.certificates⟩

theorem subsumed_finalize (rep : Report) : Subsumed rep.named (finalize x rep).named := by
  rw [named_finalize]
  exact ⟨subset_rfl, Set.subset_union_left, subset_rfl, subset_rfl, subset_rfl, subset_rfl⟩

theorem named_mergeReport : (mergeReport parent child).named =
    { libraries := parent.named.libraries ∪ child.named.libraries
      algorithms := parent.named.algorithms ∪ child.named.algorithms
      cryptoAPIs := parent.named.cryptoAPIs ∪ child.named.cryptoAPIs
      protocols := parent.named.protocols ∪ child.named.protocols
      rules := parent.named.rules ∪ child.named.rules
      certificates := parent.named.certificates ∪ child.named.certificates } := by
  apply Named.ext <;> exact namesOf_append

theorem subsumed_parent : Subsumed parent.named (mergeReport parent child).named := by
  rw [named_mergeReport]
  exact ⟨Set.subset_union_left, Set.subset_union_left, Set.subset_union_left,
    Set.subset_union_left, Set.subset_union_left, Set.subset_union_left⟩

theorem subsumed_child : Subsumed child.named (mergeReport parent child).named := by
  rw [named_mergeReport]
  exact ⟨Set.subset_union_right, Set.subset_union_right, Set.subset_union_right,
    Set.subset_union_right, Set.subset_union_right, Set.subset_union_right⟩

theorem subsumed_mergeMember (e : ArchiveEntry) :
    Subsumed rep.named (mergeMember mark analyze rep e).named := by
  unfold mergeMember
  cases analyze e with
  | error err => exact subsumed_refl _
  | ok child => exact subsumed_parent

theorem subsumed_foldl (entries : List ArchiveEntry) :
    Subsumed rep.named (entries.foldl (mergeMember mark analyze) rep).named := by
  induction entries generalizing rep with
  | nil => exact subsumed_refl _
  | cons e entries ih => exact subsumed_trans (subsumed_mergeMember e) ih

/-- All that is named in the report of a member is named in that of its archive. -/
theorem subsumed_member {e : ArchiveEntry} (he : e ∈ entries) (h : analyze e = .ok child) :
    Subsumed child.named (entries.foldl (mergeMember mark analyze) rep).named := by
  induction entries generalizing rep with
  | nil => exact nomatch he
  | cons e' entries ih =>
    obtain rfl | he := List.mem_cons.mp he
    · have hstep : mergeMember mark analyze rep e = mergeReport rep child := by
        rw [mergeMember, h]
      rw [List.foldl_cons, hstep]
      exact subsumed_trans subsumed_child (subsumed_foldl entries)
    · exact ih he

end Names

section Layers

variable {x} {format : Format} {outerName name : String} {outer inner : Bytes}

theorem length_content {content : Option Bytes} (h : content = some inner) :
    inner.length ≤ contentSize content := by
  rw [h]
  exact Nat.le_refl _

theorem readZipFile_length (f : ZipFile) (name : String) (content : Bytes)
    (h : readZipFile x.limits f name = .ok content) : content.length ≤ contentSize f.content := by
  unfold readZipFile at h
  split_ifs at h
  split at h
  · cases h
  · rename_i hcontent
    cases h
    exact length_content hcontent

theorem readTarFile_length (f : TarFile) (name : String) (content : Bytes)
    (h : readTarFile f name = .ok content) : content.length ≤ contentSize f.content := by
  unfold readTarFile at h
  split_ifs at h
  split at h
  · cases h
  · rename_i hcontent
    cases h
    exact length_content hcontent

theorem size_le_sum {sizes : List Nat} {n : Nat} (h : n ∈ sizes) : n ≤ sizes.sum := by
  induction sizes with
  | nil => exact nomatch h
  | cons m sizes ih =>
    rw [List.sum_cons]
    obtain rfl | h := List.mem_cons.mp h
    · exact Nat.le_add_right _ _
    · exact (ih h).trans (Nat.le_add_left _ _)

/-- What an archive holds is among the members that are analysed. -/
theorem mem_members (h : Wraps x format outerName outer name inner) :
    ∃ ms, members x format outerName outer = some ms ∧ ⟨name, inner⟩ ∈ ms.entries := by
  cases h with
  | @zip _ _ _ _ files f hopen hfile hname hregular hopens hcontent hclaimed hsize hentries =>
    have hmem := List.mem_map_of_mem (f := fun f : ZipFile => contentSize f.content) hfile
    have hone := (size_le_sum hmem).trans hsize
    have hlimit : ¬ f.uncompressedSize > x.limits.maxDecompressedBytes := by
      have hlength := length_content hcontent
      rw [hclaimed]
      exact Nat.not_lt.mpr (hlength.trans hone)
    have hread : readZipFile x.limits f name = .ok inner := by
      rw [readZipFile, if_neg hregular, if_neg hlimit, hopens, hcontent]
      rfl
    refine ⟨_, rfl, ?_⟩
    change _ ∈ (extractZip x.limits (x.readers.unzip outer)).entries
    rw [hopen]
    exact mem_extractFrom (fun f _ => readZipFile_length f)
      (by simpa using hentries) (by simpa using hsize) (.inr ⟨f, hfile, hname, hread⟩)
  | @tar _ _ _ _ files f err hopen hfile hname hregular hcontent hsize hentries =>
    have hread : readTarFile f name = .ok inner := by
      rw [readTarFile, hregular, hcontent]
      rfl
    refine ⟨_, rfl, ?_⟩
    change _ ∈ (extractTar x.limits (x.readers.untar outer)).entries
    rw [hopen]
    exact mem_extractFrom (fun f _ => readTarFile_length f)
      (by simpa using hentries) (by simpa using hsize) (.inr ⟨f, hfile, hname, hread⟩)
  | gzip hopen hsize =>
    refine ⟨_, rfl, ?_⟩
    rw [hopen, gzipMembers, List.take_of_length_le hsize]
    exact List.mem_singleton_self _

end Layers

section Depths

variable {x} {stored outerName name : String} {artifact outer data : Bytes} {layers : List Layer}
  {left : Nat}

theorem exists_report (x : Setup) (left : Nat) (name : String) (data : Bytes) :
    ∃ rep, analyzeDepth x (left + 1) name data = .ok rep := by
  cases h : members x (detectFormat x.cm name data) name data with
  | none => exact ⟨_, analyzeDepth_image h⟩
  | some ms => exact ⟨_, analyzeDepth_members h⟩

/-- Levels beyond those that are enough change nothing. -/
theorem analyzeDepth_fits (h : Fits x left name data) (k : Nat) :
    analyzeDepth x (left + k) name data = analyzeDepth x left name data := by
  induction left generalizing name data with
  | zero => exact absurd h id
  | succ left ih =>
    rw [Nat.succ_add]
    cases hmembers : members x (detectFormat x.cm name data) name data with
    | none => rw [analyzeDepth_image hmembers, analyzeDepth_image hmembers]
    | some ms =>
      rw [analyzeDepth_members hmembers, analyzeDepth_members hmembers]
      congr 2
      apply List.foldl_ext
      intro rep e he
      rw [mergeMember, mergeMember, ih (h ms hmembers e he)]

/-- What is named in the report of a stored artifact is named in that of its outermost archive, if
each layer is recognised. -/
theorem subsumed_nests (h : Nests x stored artifact layers outerName outer)
    (hrecognised : ∀ l ∈ layers, Recognised x l) {alone : Report}
    (halone : analyzeDepth x left stored artifact = .ok alone) :
    ∃ rep, analyzeDepth x (left + layers.length) outerName outer = .ok rep ∧
      Subsumed alone.named rep.named := by
  induction h with
  | artifact => exact ⟨alone, halone, subsumed_refl _⟩
  | @wrap format outerName name outer inner layers hwraps _ ih =>
    obtain ⟨hlayer, hlayers⟩ := List.forall_mem_cons.mp hrecognised
    have hformat : detectFormat x.cm outerName outer = format := hlayer
    obtain ⟨child, hchild, hsub⟩ := ih hlayers
    obtain ⟨ms, hms, hmem⟩ := mem_members hwraps
    rw [← hformat] at hms
    refine ⟨_, analyzeDepth_members hms, ?_⟩
    exact subsumed_trans hsub (subsumed_trans (subsumed_member hmem hchild) (subsumed_finalize _))

end Depths

section Aliases

variable {x} {rep child : Report} {own stored : String} {data : Bytes} {left : Nat}

/-- A finished report names the algorithms of its certificates. -/
theorem algorithms_finalize (rep : Report) :
    namesOf AlgorithmFinding.algorithm
        ((finalize x rep).certificates.flatMap (certificateAlgorithms x)) ⊆
      (finalize x rep).named.algorithms := by
  rw [named_finalize]
  intro n hn
  obtain ⟨a, ha, rfl⟩ := List.mem_map.mp hn
  obtain ⟨c, hc, hac⟩ := List.mem_flatMap.mp ha
  have hmem : c ∈ rep.certificates := mem_dedupeBy_last hc
  exact .inr (List.mem_map_of_mem (List.mem_flatMap.mpr ⟨c, hmem, hac⟩))

theorem finalized (h : analyzeDepth x left own data = .ok rep) : ∃ rep', rep = finalize x rep' := by
  cases left with
  | zero => exact nomatch h
  | succ left =>
    cases hmembers : members x (detectFormat x.cm own data) own data with
    | none =>
      rw [analyzeDepth_image hmembers] at h
      exact ⟨_, (Except.ok.inj h).symm⟩
    | some ms =>
      rw [analyzeDepth_members hmembers] at h
      exact ⟨_, (Except.ok.inj h).symm⟩

/-- The report of a gzip file is about what it holds. -/
theorem analyzeDepth_gzip {inner : Bytes} (hformat : detectFormat x.cm own data = .gzip)
    (hopen : x.readers.gunzip data = .ok inner)
    (hchild : analyzeDepth x left (childName own) (inner.take x.limits.maxDecompressedBytes) =
      .ok child) :
    analyzeDepth x (left + 1) own data =
      .ok (finalize x (mergeReport (newReport x own data) child)) := by
  have hmembers : members x (detectFormat x.cm own data) own data =
      some (gzipMembers x own (.ok inner)) := by rw [hformat, ← hopen]; rfl
  rw [analyzeDepth_members hmembers]
  simp only [gzipMembers, List.foldl_cons, List.foldl_nil, mergeMember, hchild]
  rfl

/-- A report without findings of its own names what the one report in it names. -/
theorem subsumed_only (hchild : ∃ rep', child = finalize x rep')
    (hnamed : rep.named = ⟨∅, ∅, ∅, ∅, ∅, ∅⟩)
    (hcertificates : rep.certificates = []) :
    Subsumed (finalize x (mergeReport rep child)).named child.named := by
  obtain ⟨rep', rfl⟩ := hchild
  have halgorithms := algorithms_finalize (x := x) rep'
  rw [named_finalize, named_mergeReport, hnamed]
  simp only [Set.empty_union]
  refine ⟨subset_rfl, Set.union_subset subset_rfl ?_, subset_rfl, subset_rfl, subset_rfl,
    subset_rfl⟩
  change namesOf _ ((rep.certificates ++ (finalize x rep').certificates).flatMap _) ⊆ _
  rw [hcertificates, List.nil_append]
  exact halgorithms

theorem named_newReport {warnings : List String} :
    ({ newReport x own data with warnings := warnings } : Report).named = ⟨∅, ∅, ∅, ∅, ∅, ∅⟩ := by
  apply Named.ext <;> exact namesOf_nil

theorem subsumed_nothing {a : Named} (hnamed : rep.named = ⟨∅, ∅, ∅, ∅, ∅, ∅⟩)
    (hcertificates : rep.certificates = []) : Subsumed (finalize x rep).named a := by
  rw [named_finalize, hnamed, hcertificates, List.flatMap_nil, namesOf_nil, Set.union_empty]
  exact ⟨Set.empty_subset _, Set.empty_subset _, Set.empty_subset _, Set.empty_subset _,
    Set.empty_subset _, Set.empty_subset _⟩

/-- The file name of a report has no part in its findings. -/
def rename (name : String) (rep : Report) : Report := { rep with fileName := name }

theorem foldl_rename (mark : String → String) (analyze : ArchiveEntry → Except String Report)
    (entries : List ArchiveEntry) (name : String) (rep : Report) :
    entries.foldl (mergeMember mark analyze) (rename name rep) =
      rename name (entries.foldl (mergeMember mark analyze) rep) := by
  induction entries generalizing rep with
  | nil => rfl
  | cons e entries ih =>
    have hstep : mergeMember mark analyze (rename name rep) e =
        rename name (mergeMember mark analyze rep e) := by
      unfold mergeMember
      cases analyze e <;> rfl
    rw [List.foldl_cons, List.foldl_cons, hstep, ih]

/-- The report of an image by another name. -/
def relabel (name : String) (rep : Report) : Report :=
  { rep with fileName := name
             certificates := rep.certificates.map fun c => { c with metadata := c.metadata.relabel name } }

theorem named_relabel (name : String) (rep : Report) :
    (finalize x (relabel name rep)).named = (finalize x rep).named := by
  have hfingerprints : (relabel name rep).named = rep.named := by
    apply Named.ext
    case certificates =>
      change namesOf fingerprint (rep.certificates.map _) = namesOf fingerprint rep.certificates
      rw [namesOf, namesOf, List.map_map]
      rfl
    all_goals rfl
  have halgorithms : (relabel name rep).certificates.flatMap (certificateAlgorithms x) =
      rep.certificates.flatMap (certificateAlgorithms x) := List.flatMap_map ..
  rw [named_finalize, named_finalize, hfingerprints, halgorithms]

theorem analyzeImage_relabel (rep : Report) (hrep : rep.certificates = []) :
    analyzeImage x (rename stored rep) stored data =
      relabel stored (analyzeImage x rep own data) := by
  have hcertificates : (extractFromBytes x.decoders (imageData rep.format data) stored).map
      (certificateFinding x) = ((extractFromBytes x.decoders
        (imageData rep.format data) own).map (certificateFinding x)).map
          fun c => { c with metadata := c.metadata.relabel stored } := by
    rw [extractFromBytes_relabel x.decoders own stored, List.map_map, List.map_map]
    rfl
  simp only [analyzeImage, rename, relabel, hrep, List.nil_append, hcertificates]

/-- The name of an image is a label of its certificates, and nothing else. -/
theorem named_image (h : detectFormat x.cm own data = detectFormat x.cm stored data) :
    (finalize x (analyzeImage x (newReport x own data) own data)).named =
      (finalize x (analyzeImage x (newReport x stored data) stored data)).named := by
  have hrep : newReport x stored data = rename stored (newReport x own data) := by
    rw [newReport, ← h]
    rfl
  rw [hrep, analyzeImage_relabel (newReport x own data) rfl, named_relabel]

theorem members_alike {format : Format} (h : format ≠ .gzip) :
    members x format own data = members x format stored data := by
  cases format with
  | gzip => exact absurd rfl h
  | elf | bin | ihex | srec | pem | unknown | zip | tar => rfl

/-- By another name an artifact that is taken for the same is reported with the same findings. -/
theorem subsumed_alike (h : Alike x left own stored data)
    (hown : analyzeDepth x left own data = .ok rep) :
    ∃ rep', analyzeDepth x left stored data = .ok rep' ∧ Subsumed rep.named rep'.named := by
  induction left generalizing own stored data rep with
  | zero => exact nomatch hown
  | succ left ih =>
    obtain ⟨hformat, hgzip⟩ := h
    by_cases hstored : detectFormat x.cm stored data = .gzip
    · have hms : members x (detectFormat x.cm stored data) stored data =
          some (gzipMembers x stored (x.readers.gunzip data)) := by rw [hstored]; rfl
      have hms' : members x (detectFormat x.cm own data) own data =
          some (gzipMembers x own (x.readers.gunzip data)) := by rw [hformat, hstored]; rfl
      rw [analyzeDepth_members hms'] at hown
      refine ⟨_, analyzeDepth_members hms, ?_⟩
      cases hinner : x.readers.gunzip data with
      | error err =>
        rw [hinner] at hown
        obtain rfl := Except.ok.inj hown
        exact subsumed_refl _
      | ok inner =>
        rw [hinner] at hown
        obtain rfl := Except.ok.inj hown
        simp only [gzipMembers, List.foldl_cons, List.foldl_nil]
        cases hchild : analyzeDepth x left (childName own)
            (inner.take x.limits.maxDecompressedBytes) with
        | error err =>
          simp only [mergeMember, hchild]
          exact subsumed_nothing named_newReport rfl
        | ok child =>
          obtain ⟨child', hchild', hsub⟩ := ih (hgzip hstored inner hinner) hchild
          simp only [mergeMember, hchild, hchild']
          refine subsumed_trans (subsumed_only (finalized hchild) named_newReport rfl) ?_
          exact subsumed_trans hsub (subsumed_trans subsumed_child (subsumed_finalize _))
    · have hsame : members x (detectFormat x.cm own data) own data =
          members x (detectFormat x.cm stored data) stored data := by
        rw [hformat, members_alike hstored]
      cases hms : members x (detectFormat x.cm stored data) stored data with
      | none =>
        rw [analyzeDepth_image (hsame.trans hms)] at hown
        obtain rfl := Except.ok.inj hown
        refine ⟨_, analyzeDepth_image hms, ?_⟩
        rw [named_image hformat]
        exact subsumed_refl _
      | some ms =>
        rw [analyzeDepth_members (hsame.trans hms)] at hown
        obtain rfl := Except.ok.inj hown
        refine ⟨_, analyzeDepth_members hms, ?_⟩
        have hrep : { newReport x stored data with warnings := ms.warnings } =
            rename stored { newReport x own data with warnings := ms.warnings } := by
          simp only [rename, newReport, hformat]
        rw [hrep, foldl_rename]
        exact subsumed_refl _

end Aliases

end RivicQ.Firmware.Nesting
