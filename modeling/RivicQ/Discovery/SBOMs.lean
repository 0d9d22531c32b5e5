import RivicQ.Discovery.Disks
import RivicQ.Discovery.Targets

namespace RivicQ.Discovery.SBOMs

open RivicQ.Lib.GoStrings RivicQ.Lib.FilePaths RivicQ.Lib.FileTrees
open RivicQ.Discovery.LocalPaths RivicQ.Discovery.Targets RivicQ.Discovery.Disks

/-- The directories that a scan passes over. -/
def skippedDir (base : String) : Bool :=
  ["node_modules", ".git", "vendor", "__pycache__", ".next", "dist", "build",
    ".terraform"].contains base

/-- The names of files that a parser exists for. -/
def dependencyFile (filename : String) : Bool :=
  ["go.mod", "package.json", "requirements.txt", "Pipfile", "Cargo.toml", "pom.xml", "build.gradle",
    "build.gradle.kts", "Gemfile", "cargo.lock", "Cargo.lock", "yarn.lock",
    "package-lock.json"].contains filename ||
    hasSuffix filename ".csproj" || hasSuffix filename ".sln"

variable (d : Disk) (wd : Option String)

/-- The location of the file that is read for a path, if any. -/
def parseDepFile (path : String) : Option (List Name) :=
  if dependencyFile (base path) then d.readFile wd path else none

/-- The files and links below an entry, in the order of a walk that does not follow
links. -/
def walkEntry : Entry → String → List String
  | .file, path => [path]
  | .link _, path => [path]
  | .dir names child, path =>
    if skippedDir (base path) then []
    else names.flatMap fun n => walkEntry (child n) (join path (String.ofList n))

def walk (root : String) : List String :=
  match d.lstat wd root with
  | none => []
  | some .file => [root]
  | some (.link _) => [root]
  | some (.dir names _) =>
    if skippedDir (base root) then []
    else
      names.flatMap fun n =>
        match d.lstat wd (join root (String.ofList n)) with
        | none => []
        | some e => walkEntry e (join root (String.ofList n))

/-- The files that are handed to the parsers for a path. -/
def scanDirectoryForSBOM (path : String) : List String :=
  match d.stat wd path with
  | none => []
  | some false => [path]
  | some true => walk d wd path

/-- The locations of the files that are read for a path. -/
def reads (path : String) : List (List Name) :=
  (scanDirectoryForSBOM d wd path).filterMap (parseDepFile d wd)

/-- Where a request to import an inventory may name a path. -/
structure ImportRequest where
  query : String
  form : String
  body : Option String

def ImportRequest.scanPath (r : ImportRequest) : String :=
  if r.query ≠ "" then r.query
  else if r.form ≠ "" then r.form
  else r.body.getD ""

def absPath (scanPath : String) : String :=
  if isAbs scanPath then scanPath else join (wd.getD "") scanPath

/-- What an import reads. Without a path it makes up an inventory. -/
def importReads (r : ImportRequest) : List (List Name) :=
  if r.scanPath ≠ "" then reads d wd (absPath wd r.scanPath) else []

/-- What a scan job reads on a machine with that file system. -/
def jobReads (m : Machine) (target scanType : String) : List (List Name) :=
  ((buildTargets (mount m d) target scanType).filter (·.protocol = "sbom")).flatMap fun t =>
    reads d m.getwd t.path

variable {d wd} {e : Entry} {path v : String} {loc : List Name}

/-- Everything met below a place has a place below it. -/
theorem mem_walkEntry (h : Placed d wd path loc e) (hv : v ∈ walkEntry e path) :
    ∃ down e', Placed d wd v (loc ++ down) e' ∧ e'.isDir = false := by
  induction e generalizing path loc with
  | file =>
    obtain rfl := List.mem_singleton.mp hv
    exact ⟨[], .file, by rwa [List.append_nil], rfl⟩
  | link target =>
    obtain rfl := List.mem_singleton.mp hv
    exact ⟨[], .link target, by rwa [List.append_nil], rfl⟩
  | dir names child ih =>
    rw [walkEntry] at hv
    split_ifs at hv
    · cases hv
    obtain ⟨n, hn, hv⟩ := List.mem_flatMap.mp hv
    obtain ⟨down, e', hplaced, hfile⟩ := ih n (h.child hn) hv
    exact ⟨n :: down, e', by rwa [List.append_cons], hfile⟩

/-- A walk meets links, and what lies below the place it starts from. -/
theorem mem_walk (h : Canonical path) (hv : v ∈ walk d wd path) :
    (∃ target, d.lstat wd v = some (.link target)) ∨
      ∃ loc down, d.locate wd path = some loc ∧ d.locate wd v = some (loc ++ down) := by
  unfold walk at hv
  cases hl : d.lstat wd path with
  | none =>
    rw [hl] at hv
    cases hv
  | some e =>
    obtain ⟨loc, hplaced⟩ := placed_of_lstat h hl
    rw [hl] at hv
    cases e with
    | file =>
      obtain rfl := List.mem_singleton.mp hv
      exact Or.inr ⟨loc, [], hplaced.locate rfl, by rw [List.append_nil, hplaced.locate rfl]⟩
    | link target =>
      obtain rfl := List.mem_singleton.mp hv
      exact Or.inl ⟨target, hl⟩
    | dir names child =>
      simp only at hv
      split_ifs at hv
      · cases hv
      obtain ⟨n, hn, hv⟩ := List.mem_flatMap.mp hv
      have hchild := hplaced.child hn
      rw [hchild.lstat] at hv
      obtain ⟨down, e', hv, _⟩ := mem_walkEntry hchild hv
      cases hlink : e'.isLink with
      | true =>
        cases e' with
        | link target => exact Or.inl ⟨target, hv.lstat⟩
        | file => cases hlink
        | dir names child => cases hlink
      | false =>
        refine Or.inr ⟨loc, n :: down, hplaced.locate rfl, ?_⟩
        rw [hv.locate hlink, List.append_assoc]
        rfl

theorem mem_reads {l : List Name} (h : l ∈ reads d wd path) :
    ∃ v ∈ scanDirectoryForSBOM d wd path, parseDepFile d wd v = some l ∧ d.locate wd v = some l := by
  obtain ⟨v, hv, hparse⟩ := List.mem_filterMap.mp h
  refine ⟨v, hv, hparse, ?_⟩
  unfold parseDepFile at hparse
  split_ifs at hparse
  exact (Option.filter_eq_some_iff.mp hparse).1

end RivicQ.Discovery.SBOMs
