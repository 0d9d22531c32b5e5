import RivicQ.Discovery.Manifests
import RivicQ.Lib.Framing

namespace RivicQ.Properties.Manifests

open RivicQ.Lib.GoStrings RivicQ.Lib.Fields RivicQ.Lib.Firsts RivicQ.Lib.Tables
open RivicQ.Discovery.Components RivicQ.Discovery.Manifests RivicQ.Discovery.CryptoLibraries

/-- A version begins with a digit. -/
def IsVersion (v : String) : Prop := ∃ c ∈ v.toList.head?, c.isDigit = true

/-- The range is the version, or what is compatible with it. -/
def Ranges (range v : String) : Prop := IsVersion v ∧ (range = v ∨ range = "^" ++ v ∨ range = "~" ++ v)

/-- The path of an installed package. -/
def InstalledAt (path p : String) : Prop :=
  path = "node_modules/" ++ p ∨ ∃ parent, path = parent ++ "/node_modules/" ++ p

/-- The head of an entry in a `yarn.lock` names the package, with quotes or without. -/
def Heads (head p : String) : Prop :=
  '@' ∉ p.toList.tail ∧ ∃ before range,
    head.toList.filter (· ≠ '\"') = before ++ (p ++ "@" ++ range ++ ":").toList ∧
      (before = [] ∨ [',', ' '] <:+ before)

/-- The lines of a text have an entry for the package with that version resolved. -/
def Resolves (text p v : String) : Prop :=
  ∃ before head body after, splitLines text = before ++ head :: (body ++ after) ∧ Heads head p ∧
    (∀ l ∈ body, hasPrefix l "  ") ∧
    ∃ l ∈ body, trimSpace l = "version \"" ++ v ++ "\"" ∨ trimSpace l = "version: " ++ v

/-- The file declares the package in that version. -/
def Declares : DepFile → String → String → Prop
  | .packageJSON pkg, p, v => ∃ range, Ranges range v ∧
      (pkg.dependencies.lookup p = some range ∨ pkg.devDependencies.lookup p = some range)
  | .packageLock lock, p, v => ∃ path, InstalledAt path p ∧ lock.packages.lookup path = some v
  | .yarnLock data, p, v => Resolves data p v
  | .goMod _, _, _ => False
  | .other _, _, _ => False

variable (cm : CaseMap)

/-- The name is one of a known cryptographic library. -/
def Known (name : String) : Prop := (profileOf cm name).isSome = true

/-- The library has a component of its own. -/
def Detected (files : List DepFile) (p v : String) : Prop :=
  ∃ c ∈ cbomComponentsFromSBOM cm (scanDirectory files), c.library = p ∧ c.version = v

/-- The known libraries that some file declares are detected, and so are all that are found. -/
structure Detects (files : List DepFile) : Prop where
  declared : ∀ f ∈ files, ∀ p v, Declares f p v → Known cm p → Detected cm files p v
  found : ∀ s ∈ (scanDirectory files).components, Known cm s.name → Detected cm files s.name s.version

/-- The file is read as one that has the package in that version. -/
def Lists : DepFile → String → String → Prop
  | .packageJSON pkg, p, v => (p ≠ "" ∧ pkg.name = p ∧ pkg.version = v) ∨
      ∃ range, npmVersion range = v ∧
        (pkg.dependencies.lookup p = some range ∨ pkg.devDependencies.lookup p = some range)
  | .packageLock lock, p, v => (p ≠ "" ∧ lock.packages.lookup p = some v) ∨
      lock.dependencies.lookup p = some v
  | .yarnLock data, p, v => p ≠ "" ∧ ∃ line ∈ splitLines data, ∃ before after,
      hasPrefix (trimSpace line) "\"" = true ∧ cut (trimSpace line) '@' = some (before, after) ∧
        trim before ['\"'] = p ∧ (fields (trim after ['\"', ':'])).headD "" = v
  | .goMod data, p, v => ∃ c ∈ parseGoMod data, c.name = p ∧ c.version = v
  | .other components, p, v => ∃ c ∈ components, c.name = p ∧ c.version = v

/-- What is read in a file, before repeated entries are left out. -/
def entries : DepFile → List SBOMComponent
  | .packageLock lock =>
    (lock.packages.entries.filter (·.1 ≠ "")).map (fun e => npmComponent e.1 e.2) ++
      lock.dependencies.entries.map fun e => npmComponent e.1 e.2
  | f => parseDepFile f

/-- Some file lists the package, and no earlier entry has its name and version in one text under
another name. -/
def Listed (files : List DepFile) (p v : String) : Prop :=
  (∃ f ∈ files, Lists f p v) ∧ ∀ s, First SBOMComponent.key (files.flatMap entries) s →
    s.key = p ++ "@" ++ v → s.name = p

/-- No two known libraries of the files share an algorithm and a version. -/
def Distinct (files : List DepFile) : Prop :=
  ∀ s s', First SBOMComponent.key (files.flatMap entries) s →
    First SBOMComponent.key (files.flatMap entries) s' → s.version = s'.version →
    ∀ profile ∈ profileOf cm s.name, ∀ profile' ∈ profileOf cm s'.name,
      profile.algorithm = profile'.algorithm → s.name = s'.name

variable {cm} {files : List DepFile} {f : DepFile} {p v : String} {s : SBOMComponent}

section Entries

theorem mem_npmDependencies {t : Table String} :
    (∃ s ∈ npmDependencies t, s.name = p ∧ s.version = v) ↔
      ∃ range, npmVersion range = v ∧ t.lookup p = some range := by
  simp only [npmDependencies, List.mem_map]
  constructor
  · rintro ⟨_, ⟨⟨name, range⟩, he, rfl⟩, rfl, rfl⟩
    exact ⟨range, rfl, AList.mem_lookup_iff.mpr he⟩
  · rintro ⟨range, rfl, he⟩
    exact ⟨_, ⟨⟨p, range⟩, AList.mem_lookup_iff.mp he, rfl⟩, rfl, rfl⟩

theorem mem_lockComponents {t : Table String} :
    (∃ s ∈ t.entries.map (fun e => npmComponent e.1 e.2), s.name = p ∧ s.version = v) ↔
      t.lookup p = some v := by
  simp only [List.mem_map]
  constructor
  · rintro ⟨_, ⟨⟨name, version⟩, he, rfl⟩, rfl, rfl⟩
    exact AList.mem_lookup_iff.mpr he
  · exact fun he => ⟨_, ⟨⟨p, v⟩, AList.mem_lookup_iff.mp he, rfl⟩, rfl, rfl⟩

def yarnComponent (name version : String) : SBOMComponent :=
  { name, version, type := "library" }

theorem yarnComponent_name (name version : String) : (yarnComponent name version).name = name :=
  rfl

theorem yarnComponent_version (name version : String) :
    (yarnComponent name version).version = version := rfl

theorem yarnLine_eq_some {line : String} : yarnLine line = some s ↔
    ∃ before after, hasPrefix (trimSpace line) "\"" = true ∧
      cut (trimSpace line) '@' = some (before, after) ∧ trim before ['\"'] ≠ "" ∧
      s = yarnComponent (trim before ['\"']) ((fields (trim after ['\"', ':'])).headD "") := by
  cases hcut : cut (trimSpace line) '@' with
  | none =>
    simp only [yarnLine, hcut, ite_self]
    refine iff_of_false (Option.some_ne_none s).symm ?_
    rintro ⟨before, after, -, h, -⟩
    cases h
  | some parts =>
    obtain ⟨before, after⟩ := parts
    simp only [yarnLine, hcut]
    rw [Option.ite_none_right_eq_some, Option.ite_none_right_eq_some, Option.some.injEq]
    constructor
    · rintro ⟨hquote, hne, rfl⟩
      exact ⟨before, after, hquote, rfl, hne, rfl⟩
    · rintro ⟨_, _, hquote, ⟨⟩, hne, rfl⟩
      exact ⟨hquote, hne, rfl⟩

theorem mem_yarnLines {lines : List String} :
    (∃ s ∈ lines.filterMap yarnLine, s.name = p ∧ s.version = v) ↔
      p ≠ "" ∧ ∃ line ∈ lines, ∃ before after,
        hasPrefix (trimSpace line) "\"" = true ∧ cut (trimSpace line) '@' = some (before, after) ∧
          trim before ['\"'] = p ∧ (fields (trim after ['\"', ':'])).headD "" = v := by
  constructor
  · rintro ⟨s, hs, rfl, rfl⟩
    obtain ⟨line, hline, hsome⟩ := List.mem_filterMap.mp hs
    obtain ⟨before, after, hquote, hcut, hne, rfl⟩ := yarnLine_eq_some.mp hsome
    exact ⟨hne, line, hline, before, after, hquote, hcut, (yarnComponent_name _ _).symm,
      (yarnComponent_version _ _).symm⟩
  · rintro ⟨hne, line, hline, before, after, hquote, hcut, rfl, rfl⟩
    have hsome := yarnLine_eq_some.mpr ⟨before, after, hquote, hcut, hne, rfl⟩
    exact ⟨_, List.mem_filterMap.mpr ⟨line, hline, hsome⟩, yarnComponent_name _ _,
      yarnComponent_version _ _⟩

theorem mem_packageJSON {pkg : PackageJSON} :
    (∃ s ∈ parsePackageJSON pkg, s.name = p ∧ s.version = v) ↔ Lists (.packageJSON pkg) p v := by
  have hcomponents : (∃ s ∈ npmDependencies pkg.dependencies ++ npmDependencies pkg.devDependencies,
      s.name = p ∧ s.version = v) ↔
      ∃ range, npmVersion range = v ∧
        (pkg.dependencies.lookup p = some range ∨ pkg.devDependencies.lookup p = some range) := by
    simp only [List.mem_append, or_and_right, exists_or, mem_npmDependencies, and_or_left]
  rw [Lists, ← hcomponents]
  simp only [parsePackageJSON]
  split_ifs with hname
  · rw [List.exists_mem_cons_iff]
    refine or_congr_left ⟨?_, ?_⟩
    · rintro ⟨rfl, rfl⟩
      exact ⟨hname, rfl, rfl⟩
    · rintro ⟨-, rfl, rfl⟩
      exact ⟨rfl, rfl⟩
  · refine (or_iff_right ?_).symm
    rintro ⟨hne, rfl, -⟩
    exact hname hne

theorem mem_packageLock {lock : PackageLock} :
    (∃ s ∈ entries (.packageLock lock), s.name = p ∧ s.version = v) ↔
      Lists (.packageLock lock) p v := by
  rw [Lists, entries]
  simp only [List.mem_append, or_and_right, exists_or, mem_lockComponents]
  refine or_congr_left ?_
  simp only [List.mem_map, List.mem_filter, decide_eq_true_eq]
  constructor
  · rintro ⟨_, ⟨⟨path, version⟩, ⟨he, hne⟩, rfl⟩, rfl, rfl⟩
    exact ⟨hne, AList.mem_lookup_iff.mpr he⟩
  · rintro ⟨hne, he⟩
    exact ⟨_, ⟨⟨p, v⟩, ⟨AList.mem_lookup_iff.mp he, hne⟩, rfl⟩, rfl, rfl⟩

theorem lists_iff : (∃ s ∈ entries f, s.name = p ∧ s.version = v) ↔ Lists f p v := by
  cases f with
  | goMod data => exact Iff.rfl
  | packageJSON pkg => exact mem_packageJSON
  | packageLock lock => exact mem_packageLock
  | yarnLock data => exact mem_yarnLines
  | other components => exact Iff.rfl

theorem first_parseDepFile : First SBOMComponent.key (files.flatMap parseDepFile) s ↔
    First SBOMComponent.key (files.flatMap entries) s := by
  have hfile : ∀ f, (parseDepFile f).find? (fun w => w.key = s.key) =
      (entries f).find? fun w => w.key = s.key := by
    intro f
    cases f with
    | packageLock lock => exact find?_firsts s.key
    | _ => rfl
  simp only [First, List.find?_flatMap, hfile]

theorem mem_scanDirectory : s ∈ (scanDirectory files).components ↔
    First SBOMComponent.key (files.flatMap entries) s :=
  mem_firsts.trans first_parseDepFile

/-- A package is among the components if and only if it is listed. -/
theorem listed_iff : (∃ s ∈ (scanDirectory files).components, s.name = p ∧ s.version = v) ↔
    Listed files p v := by
  simp only [mem_scanDirectory, Listed, ← lists_iff]
  constructor
  · rintro ⟨s, hfirst, rfl, rfl⟩
    refine ⟨?_, fun s' hfirst' hkey => ?_⟩
    · obtain ⟨f, hf, hs⟩ := List.mem_flatMap.mp hfirst.mem
      exact ⟨f, hf, s, hs, rfl, rfl⟩
    · rw [hfirst'.eq hfirst hkey]
  · rintro ⟨⟨f, hf, s, hs, rfl, rfl⟩, hname⟩
    obtain ⟨s', hfirst, hkey⟩ :=
      exists_first SBOMComponent.key (List.mem_flatMap.mpr ⟨f, hf, hs⟩)
    have hsame := hname s' hfirst hkey
    refine ⟨s', hfirst, hsame, ?_⟩
    rw [SBOMComponent.key, SBOMComponent.key, hsame] at hkey
    exact String.append_right_inj _ |>.mp hkey

end Entries

section Components

theorem algorithm_plain : ∀ e ∈ cryptoLibraries, '@' ∉ e.2.algorithm.toList := by
  decide

theorem profile_mem {profile : CryptoLibraryProfile} (h : profileOf cm p = some profile) :
    ∃ name, (name, profile) ∈ cryptoLibraries := by
  have hmem : ∀ name, cryptoLibraries.lookup name = some profile →
      ∃ name, (name, profile) ∈ cryptoLibraries := by
    intro name hname
    exact ⟨name, mem_of_lookup hname⟩
  rw [profileOf, Option.or_eq_some_iff] at h
  obtain h | ⟨-, h⟩ := h
  · exact hmem _ h
  · exact hmem _ h

/-- The keys of two known libraries agree if and only if their algorithms and versions do. -/
theorem libraryKey_inj {s' : SBOMComponent} {profile profile' : CryptoLibraryProfile}
    (h : profileOf cm s.name = some profile) (h' : profileOf cm s'.name = some profile') :
    libraryKey (libraryComponent s profile) = libraryKey (libraryComponent s' profile') ↔
      profile.algorithm = profile'.algorithm ∧ s.version = s'.version := by
  obtain ⟨name, hmem⟩ := profile_mem h
  obtain ⟨name', hmem'⟩ := profile_mem h'
  constructor
  · intro hkey
    have hlist := congrArg String.toList hkey
    simp only [libraryKey, libraryComponent, String.toList_append, List.append_assoc] at hlist
    obtain ⟨halgorithm, hversion⟩ := RivicQ.Lib.Framing.append_cons_inj
      (algorithm_plain _ hmem) (algorithm_plain _ hmem') hlist
    exact ⟨String.toList_injective halgorithm, String.toList_injective hversion⟩
  · rintro ⟨halgorithm, hversion⟩
    simp only [libraryKey, libraryComponent, halgorithm, hversion]

/-- The known libraries among some components. -/
theorem mem_components {components : List SBOMComponent} {c : CBOMComponent} :
    c ∈ components.filterMap (fun s => (profileOf cm s.name).map (libraryComponent s)) ↔
      ∃ s ∈ components, ∃ profile, profileOf cm s.name = some profile ∧
        libraryComponent s profile = c := by
  simp only [List.mem_filterMap, Option.map_eq_some_iff]

/-- What is found is detected if and only if no two known libraries share their key. -/
theorem found_iff : (∀ s ∈ (scanDirectory files).components, Known cm s.name →
      Detected cm files s.name s.version) ↔ Distinct cm files := by
  simp only [Detected, cbomComponentsFromSBOM, mem_firsts, mem_scanDirectory]
  constructor
  · intro h s s' hs hs' hversion profile hprofile profile' hprofile' halgorithm
    obtain ⟨c, hc, hname, hv⟩ := h s hs (Option.isSome_of_mem hprofile)
    obtain ⟨c', hc', hname', hv'⟩ := h s' hs' (Option.isSome_of_mem hprofile')
    obtain ⟨t, ht, tprofile, htprofile, rfl⟩ := mem_components.mp hc.mem
    obtain ⟨t', ht', tprofile', htprofile', rfl⟩ := mem_components.mp hc'.mem
    -- each component has the algorithm of its library
    have hsame : tprofile = profile := by
      have hlookup : profileOf cm t.name = some profile :=
        (congrArg (profileOf cm) hname).trans hprofile
      exact Option.some.inj (htprofile.symm.trans hlookup)
    have hsame' : tprofile' = profile' := by
      have hlookup : profileOf cm t'.name = some profile' :=
        (congrArg (profileOf cm) hname').trans hprofile'
      exact Option.some.inj (htprofile'.symm.trans hlookup)
    subst hsame hsame'
    have hkey := (libraryKey_inj htprofile htprofile').mpr
      ⟨halgorithm, hv.trans (hversion.trans hv'.symm)⟩
    have heq := congrArg CBOMComponent.library (hc.eq hc' hkey)
    exact hname.symm.trans (heq.trans hname')
  · intro h s hs hknown
    obtain ⟨profile, hprofile⟩ := Option.isSome_iff_exists.mp hknown
    have hmem := mem_components.mpr ⟨s, mem_scanDirectory.mpr hs, profile, hprofile, rfl⟩
    obtain ⟨c, hc, hkey⟩ := exists_first libraryKey hmem
    obtain ⟨t, ht, tprofile, htprofile, rfl⟩ := mem_components.mp hc.mem
    obtain ⟨halgorithm, hversion⟩ := (libraryKey_inj htprofile hprofile).mp hkey
    exact ⟨_, hc, h t s (mem_scanDirectory.mp ht) hs hversion tprofile htprofile profile hprofile
      halgorithm, hversion⟩

/-- What is detected has been found. -/
theorem listed_of_detected (h : Detected cm files p v) : Listed files p v := by
  obtain ⟨c, hc, rfl, rfl⟩ := h
  obtain ⟨s, hs, profile, -, rfl⟩ := mem_components.mp (mem_firsts.mp hc).mem
  exact listed_iff.mp ⟨s, hs, rfl, rfl⟩

/-- Libraries are detected whatever file declares them, and each has its own component, if and only
if the declared ones are listed and no two known ones share an algorithm and a version. -/
theorem detects_iff (cm : CaseMap) (files : List DepFile) : Detects cm files ↔
    (∀ f ∈ files, ∀ p v, Declares f p v → Known cm p → Listed files p v) ∧ Distinct cm files := by
  rw [← found_iff]
  constructor
  · exact fun h => ⟨fun f hf p v hdeclares hknown =>
      listed_of_detected (h.declared f hf p v hdeclares hknown), h.found⟩
  · rintro ⟨hdeclared, hfound⟩
    refine ⟨fun f hf p v hdeclares hknown => ?_, hfound⟩
    obtain ⟨s, hs, rfl, rfl⟩ := listed_iff.mpr (hdeclared f hf p v hdeclares hknown)
    exact hfound s hs hknown

/-- A lock file with one package. -/
def lockOnly : DepFile :=
  .packageLock { packages := AList.insert "node_modules/bcrypt" "5.1.0" ∅ }

theorem bcrypt_known : Known asciiCase "bcrypt" := by
  rw [Known]
  decide

/-- A library in a lock file is not detected. -/
theorem lock_not_detected : ¬ ∀ cm files, Detects cm files := by
  intro h
  obtain ⟨c, hc, -⟩ := (h asciiCase [lockOnly]).declared lockOnly (List.mem_singleton_self _)
    "bcrypt" "5.1.0" ⟨"node_modules/bcrypt", Or.inl (by decide), by decide⟩ bcrypt_known
  have hnone : cbomComponentsFromSBOM asciiCase (scanDirectory [lockOnly]) = [] := by
    decide
  rw [hnone] at hc
  cases hc

end Components

section Ranges

theorem not_prefix_of_version {c : Char} (h : IsVersion v) (hc : c.isDigit = false) :
    ¬ hasPrefix v (String.ofList [c]) = true := by
  intro hprefix
  obtain ⟨t, rfl⟩ := exists_append hprefix
  obtain ⟨d, hd, hdigit⟩ := h
  rw [String.toList_append, String.toList_ofList] at hd
  obtain rfl : c = d := Option.some.inj hd
  exact Bool.false_ne_true (hc.symm.trans hdigit)

/-- A range gives the version it stands for. -/
theorem npmVersion_range {range : String} (h : Ranges range v) : npmVersion range = v := by
  obtain ⟨hversion, rfl | rfl | rfl⟩ := h
  · rw [npmVersion, trimPrefix_of_not (not_prefix_of_version hversion (c := '^') (by decide)),
      trimPrefix_of_not (not_prefix_of_version hversion (c := '~') (by decide))]
  · rw [npmVersion, trimPrefix_append,
      trimPrefix_of_not (not_prefix_of_version hversion (c := '~') (by decide))]
  · have hcaret : ¬ hasPrefix ("~" ++ v) "^" = true := by
      intro hprefix
      obtain ⟨t, ht⟩ := exists_append hprefix
      have hhead := congrArg (fun s => s.toList.head?) ht
      simp [String.toList_append] at hhead
    rw [npmVersion, trimPrefix_of_not hcaret, trimPrefix_append]

/-- What a `package.json` declares it lists. -/
theorem lists_packageJSON {pkg : PackageJSON} (h : Declares (.packageJSON pkg) p v) :
    Lists (.packageJSON pkg) p v := by
  obtain ⟨range, hrange, hlookup⟩ := h
  exact Or.inr ⟨range, npmVersion_range hrange, hlookup⟩

end Ranges

end RivicQ.Properties.Manifests
