import RivicQ.Discovery.SBOMs
import RivicQ.Properties.Confinement

namespace RivicQ.Properties.Reading

open RivicQ.Lib.GoStrings RivicQ.Lib.FilePaths RivicQ.Lib.FileTrees
open RivicQ.Discovery.Network RivicQ.Discovery.Policies RivicQ.Discovery.LocalPaths
open RivicQ.Discovery.Targets RivicQ.Discovery.Disks RivicQ.Discovery.SBOMs
open RivicQ.Properties.Confinement (Accepted oddTilde opened_of_accepted accepted_unanswered
  workstation rooted)

/-- What may have files read: a scan job, or the import of an inventory. -/
inductive FileRequest where
  | job (target scanType : String)
  | importSBOM (r : ImportRequest)

variable (m : Machine) (d : Disk) (p : TargetPolicy)

def filesRead : FileRequest → List (List Name)
  | .job target scanType => jobReads d m target scanType
  | .importSBOM r => importReads d m.getwd r

/-- A job is accepted by the policy; an import is not asked for it. -/
def Admitted : FileRequest → Prop
  | .job target _ => Accepted (mount m d) p target
  | .importSBOM _ => True

/-- The policy lets the file at a location be read: one of its roots, with links
followed, is above it. -/
def Allowed (loc : List Name) : Prop :=
  p.allowLocalPaths = true ∧
    ∃ root ∈ p.localPathRoots, ∃ r, resolveRoot (mount m d) root = some r ∧ elements r <+: loc

/-- A clean path which the policy would let pass as a local target. -/
def Vetted (path : String) : Prop :=
  Canonical path ∧ p.allowLocalPaths = true ∧
    withinRoots (mount m d) p (resolveExistingPrefix (mount m d) path) = true

/-- The links that are met under the name of a dependency file lead to files the
policy lets be read, or to none. -/
def LinksAllowed (path : String) : Prop :=
  ∀ v ∈ scanDirectoryForSBOM d m.getwd path, ∀ target, d.lstat m.getwd v = some (.link target) →
    ∀ loc, parseDepFile d m.getwd v = some loc → Allowed m d p loc

/-- A path that does no harm unasked: it would pass, but for links, or happens to hold
nothing else than what may be read. -/
def Sound (path : String) : Prop :=
  (Vetted m d p path ∧ LinksAllowed m d p path) ∨
    (¬ Vetted m d p path ∧ ∀ loc ∈ reads d m.getwd path, Allowed m d p loc)

/-- The policy is not asked for the path that a job has scanned. -/
def Unseen (target scanType : String) : Prop :=
  classifyTarget (mount m d) target scanType = .pod ∨ oddTilde (trimSpace target) = true

def Harmless : FileRequest → Prop
  | .job target scanType =>
    ∀ path ∈ scannedPath (mount m d) target scanType,
      (Unseen m d target scanType → Sound m d p path) ∧
        (¬ Unseen m d target scanType → LinksAllowed m d p path)
  | .importSBOM r => r.scanPath ≠ "" → Sound m d p (absPath m.getwd r.scanPath)

variable {m d p} {path current remaining real : String} {loc : List Name} {n : Nat}

theorem canonical_resolvePrefix (h : Canonical path) :
    Canonical (resolvePrefix (mount m d) path n current remaining) := by
  induction n generalizing current remaining with
  | zero => exact h
  | succ n ih =>
    unfold resolvePrefix
    cases hreal : (mount m d).evalSymlinks current with
    | some resolved =>
      have hresolved : Canonical resolved := canonical_evalSymlinks hreal
      simp only
      split_ifs
      · exact hresolved
      · exact canonical_join hresolved
    | none =>
      simp only
      split_ifs
      · exact h
      · exact ih

theorem canonical_resolveRoot (h : resolveRoot (mount m d) path = some real) : Canonical real := by
  obtain ⟨root, hroot, rfl⟩ := Option.map_eq_some_iff.mp h
  exact canonical_resolvePrefix (canonical_abs m.isAbs_getwd hroot)

theorem resolveExistingPrefix_of_locate (h : d.locate m.getwd path = some loc) :
    resolveExistingPrefix (mount m d) path = ofElements loc := by
  have hreal : (mount m d).evalSymlinks path = some (ofElements loc) := evalSymlinks_of_locate h
  unfold resolveExistingPrefix resolvePrefix
  simp only [hreal, if_true]

/-- What a vetted path leads to, and all below, may be read. -/
theorem Vetted.allowed (down : List Name) (h : Vetted m d p path)
    (hloc : d.locate m.getwd path = some loc) : Allowed m d p (loc ++ down) := by
  obtain ⟨_, hallow, hwithin⟩ := h
  rw [resolveExistingPrefix_of_locate hloc] at hwithin
  obtain ⟨root, hroot, hbelow⟩ := List.any_eq_true.mp hwithin
  obtain ⟨_, _, _, hnames⟩ := locate_find hloc
  cases hr : resolveRoot (mount m d) root with
  | none =>
    rw [hr] at hbelow
    cases hbelow
  | some r =>
    rw [hr] at hbelow
    rw [pathWithinRoot_iff (canonical_resolveRoot hr) (canonical_ofElements hnames),
      elements_ofElements hnames] at hbelow
    exact ⟨hallow, root, hroot, r, hr, hbelow.trans (List.prefix_append loc down)⟩

/-- From a vetted path only links lead to files that may not be read. -/
theorem Vetted.reads (h : Vetted m d p path) :
    (∀ loc ∈ reads d m.getwd path, Allowed m d p loc) ↔ LinksAllowed m d p path := by
  constructor
  · intro hall v hv _ _ loc hparse
    exact hall loc (List.mem_filterMap.mpr ⟨v, hv, hparse⟩)
  · intro hlinks loc hmem
    obtain ⟨v, hv, hparse, hlocate⟩ := mem_reads hmem
    have hscan := hv
    unfold scanDirectoryForSBOM at hscan
    split at hscan
    · cases hscan
    · obtain rfl := List.mem_singleton.mp hscan
      have hallowed := h.allowed [] hlocate
      rwa [List.append_nil] at hallowed
    · obtain ⟨target, hlink⟩ | ⟨start, down, hstart, hv'⟩ := mem_walk h.1 hscan
      · exact hlinks v hv target hlink loc hparse
      · obtain rfl := Option.some.inj (hlocate.symm.trans hv')
        exact h.allowed _ hstart

theorem sound_iff : Sound m d p path ↔ ∀ loc ∈ reads d m.getwd path, Allowed m d p loc := by
  unfold Sound
  by_cases h : Vetted m d p path
  · rw [← h.reads]
    simp [h]
  · simp [h]

theorem scannedPath_seen {target scanType : String} (h : ¬ Unseen m d target scanType)
    (hpath : scannedPath (mount m d) target scanType = some path) :
    opened (mount m d) target = some path ∧ oddTilde (trimSpace target) = false := by
  obtain ⟨hpod, htilde⟩ := not_or.mp h
  refine ⟨?_, Bool.eq_false_iff.mpr htilde⟩
  unfold scannedPath at hpath
  cases hclass : classifyTarget (mount m d) target scanType with
  | pod => exact absurd hclass hpod
  | hardware =>
    rw [hclass] at hpath
    cases hpath
  | firmware =>
    rw [hclass] at hpath
    cases hpath
  | website =>
    rw [hclass] at hpath
    exact hpath
  | host =>
    rw [hclass] at hpath
    exact hpath
  | ip =>
    rw [hclass] at hpath
    exact hpath
  | server =>
    rw [hclass] at hpath
    exact hpath
  | path =>
    rw [hclass] at hpath
    exact hpath

/-- A path that was checked is vetted where it is scanned. -/
theorem vetted_of_accepted {target scanType : String} (h : Accepted (mount m d) p target)
    (hseen : ¬ Unseen m d target scanType)
    (hpath : scannedPath (mount m d) target scanType = some path) : Vetted m d p path := by
  obtain ⟨hopen, htilde⟩ := scannedPath_seen hseen hpath
  obtain ⟨habs, hallow, hwithin⟩ := opened_of_accepted h htilde hopen
  exact ⟨canonical_abs m.isAbs_getwd habs, hallow, hwithin⟩

theorem jobReads_iff {target scanType : String} :
    (∀ loc ∈ jobReads d m target scanType, Allowed m d p loc) ↔
      ∀ path ∈ scannedPath (mount m d) target scanType, ∀ loc ∈ reads d m.getwd path,
        Allowed m d p loc := by
  rw [← sbom_buildTargets (Q := fun path => ∀ loc ∈ reads d m.getwd path, Allowed m d p loc)]
  unfold jobReads
  constructor
  · intro h t ht hsbom loc hloc
    exact h loc (List.mem_flatMap.mpr ⟨t, List.mem_filter.mpr ⟨ht, decide_eq_true hsbom⟩, hloc⟩)
  · intro h loc hloc
    obtain ⟨t, ht, hloc⟩ := List.mem_flatMap.mp hloc
    obtain ⟨ht, hsbom⟩ := List.mem_filter.mp ht
    exact h t ht (of_decide_eq_true hsbom) loc hloc

/-- A file system with the one file `/srv/app/go.mod`. -/
def small : Disk where
  root :=
    .dir ["srv".toList] fun _ => .dir ["app".toList] fun _ => .dir ["go.mod".toList] fun _ => .file
  links := 40
  named := by simp [Entry.Named, Proper, dotdot]
  links_le := by decide

end RivicQ.Properties.Reading
