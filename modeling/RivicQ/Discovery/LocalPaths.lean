import RivicQ.Discovery.Policies
import RivicQ.Lib.FilePaths
import RivicQ.Lib.HostPorts

namespace RivicQ.Discovery.LocalPaths

open RivicQ.Lib.GoStrings RivicQ.Lib.FilePaths RivicQ.Lib.URLs
open RivicQ.Discovery.Network RivicQ.Discovery.Policies

/-- The machine the service runs on: its case tables, URL parser, home and working
directories, and file system. `stat` tells directories from other files. A home directory
that is known is not empty, and a working directory is an absolute path. -/
structure Machine where
  cases : CaseMap
  parseURL : String → Option URL
  userHomeDir : Option String
  getwd : Option String
  evalSymlinks : String → Option String
  stat : String → Option Bool
  userHomeDir_ne : userHomeDir ≠ some ""
  isAbs_getwd : ∀ wd ∈ getwd, isAbs wd = true

/-- A machine without files or a home directory. -/
def bare : Machine where
  cases := asciiCase
  parseURL _ := none
  userHomeDir := none
  getwd := none
  evalSymlinks _ := none
  stat _ := none
  userHomeDir_ne := by simp
  isAbs_getwd := by simp

variable (m : Machine) (p : TargetPolicy)

def isDir (path : String) : Bool := m.stat path = some true

def isFile (path : String) : Bool := m.stat path = some false

/-- The classification of a target as a local path. -/
def looksLikeLocalPath (raw : String) : Bool :=
  raw = "." || raw = ".." || hasPrefix raw "./" || hasPrefix raw "../" || hasPrefix raw "/" ||
    hasPrefix raw "~" || hasPrefix raw "\\\\"

/-- A leading `~` is the home directory. -/
def expandUser (raw : String) : String :=
  if !hasPrefix raw "~" then raw
  else
    match m.userHomeDir with
    | none => raw
    | some home =>
      if raw = "~" then home
      else if hasPrefix raw "~/" || hasPrefix raw "~\\" then
        join home (String.ofList (raw.toList.drop 2))
      else raw

/-- The deepest ancestor of a path whose links can be resolved, with the remainder
behind it. A path has no more ancestors than it is long. -/
def resolvePrefix (path : String) : Nat → String → String → String
  | 0, _, _ => path
  | n + 1, current, remaining =>
    match m.evalSymlinks current with
    | some resolved => if remaining = "" then resolved else join resolved remaining
    | none =>
      let parent := dir current
      if parent = current then path
      else resolvePrefix path n parent (join (base current) remaining)

def resolveExistingPrefix (path : String) : String :=
  resolvePrefix m path (path.length + 2) path ""

/-- Whether a target is a root or sits beneath it. -/
def pathWithinRoot (root target : String) : Bool :=
  if root = target then true
  else
    match rel root target with
    | none => false
    | some rel => if rel = ".." || hasPrefix rel "../" then false else !isAbs rel

/-- A root of the policy, as a path is compared with it. -/
def resolveRoot (root : String) : Option String :=
  (abs m.getwd (expandUser m root)).map (resolveExistingPrefix m)

def withinRoots (path : String) : Bool :=
  p.localPathRoots.any fun root =>
    match resolveRoot m root with
    | none => false
    | some root => pathWithinRoot root path

def validateLocalPath (raw : String) : Except Err Unit :=
  if !p.allowLocalPaths then blocked .localPathDisabled
  else if p.localPathRoots = [] then blocked .noLocalPathRoots
  else
    match abs m.getwd (expandUser m raw) with
    | none => blocked .unresolvablePath
    | some path =>
      if withinRoots m p (resolveExistingPrefix m path) then .ok ()
      else blocked (.outsideRoots raw)

section Roots

variable {m p} {root target : String}

/-- A path is within a root if the names of the root are its first. -/
theorem pathWithinRoot_iff (hr : Canonical root) (ht : Canonical target) :
    pathWithinRoot root target = true ↔ elements root <+: elements target := by
  unfold pathWithinRoot
  by_cases heq : root = target
  · rw [if_pos heq, heq]
    simp
  rw [if_neg heq, rel_canonical hr ht (Ne.symm heq)]
  obtain ⟨front, hroot, htarget⟩ :=
    differ_append (elements root) (elements target)
  rw [← differ_eq_nil]
  generalize (differ (elements root) (elements target)).1 = up at *
  generalize (differ (elements root) (elements target)).2 = down at *
  have hdown : ∀ e ∈ down, Proper e ∧ '/' ∉ e := by
    intro e he
    have hmem : e ∈ elements target := by
      rw [htarget]
      exact List.mem_append_right front he
    exact ⟨proper_elements ht hmem, slash_not_mem_elements hmem⟩
  have hnames : ∀ e ∈ List.replicate up.length dotdot ++ down, e ≠ [] ∧ '/' ∉ e := by
    intro e he
    obtain he | he := List.mem_append.mp he
    · rw [List.eq_of_mem_replicate he]
      decide
    · exact ⟨(hdown e he).1.1, (hdown e he).2⟩
  have hne : List.replicate up.length dotdot ++ down ≠ [] := by
    intro hnil
    obtain ⟨hup, rfl⟩ := List.append_eq_nil_iff.mp hnil
    have hup : up = [] := by simpa using hup
    rw [hup, List.append_nil] at hroot
    rw [List.append_nil, ← hroot] at htarget
    rw [← ofElements_elements hr, ← ofElements_elements ht, htarget] at heq
    exact heq rfl
  have hhead : (List.replicate up.length dotdot ++ down).head? = some dotdot ↔ up ≠ [] := by
    cases up with
    | nil =>
      simp only [List.length_nil, List.replicate_zero, List.nil_append, ne_eq, not_true, iff_false]
      intro hhead
      exact (hdown dotdot (List.mem_of_mem_head? hhead)).1.2.2 rfl
    | cons e up => simp [List.replicate_succ]
  have hup := leads_up hne fun e he => (hnames e he).2
  simp only [isAbs_ups _ hnames, Bool.not_false, Bool.or_eq_true, decide_eq_true_eq, hup, hhead]
  simp

end Roots

end RivicQ.Discovery.LocalPaths
