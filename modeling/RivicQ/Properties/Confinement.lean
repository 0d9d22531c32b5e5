import RivicQ.Discovery.Targets

namespace RivicQ.Properties.Confinement

open RivicQ.Lib.GoStrings RivicQ.Lib.FilePaths RivicQ.Lib.Programs RivicQ.Lib.Traces
open RivicQ.Discovery.Network RivicQ.Discovery.Policies RivicQ.Discovery.LocalPaths
open RivicQ.Discovery.Validation RivicQ.Discovery.Targets

variable (m : Machine) (p : TargetPolicy)

/-- The target passes, with some answers of the resolver. -/
def Accepted (target : String) : Prop := ∃ es, Runs (validateTarget m p target) es (.ok ())

/-- A path that the policy opens to scans. -/
def Inside (path : String) : Prop :=
  p.allowLocalPaths = true ∧ withinRoots m p (resolveExistingPrefix m path) = true

def Confined (t : Target) : Prop := t.protocol = "sbom" → Inside m p t.path

/-- A leading `~` that is not the home directory of the caller alone. -/
def oddTilde (raw : String) : Bool := hasPrefix raw "~" && raw ≠ "~" && !hasPrefix raw "~/"

/-- The paths that the check of a target does not see are open to scans all the
same. -/
def Foreseen (target scanType : String) : Prop :=
  match classifyTarget m target scanType with
  | .hardware => True
  | .firmware => True
  | .pod => ∀ path ∈ opened m (parsePodTarget m target).host, Inside m p path
  | _ => oddTilde (trimSpace target) = true → ∀ path ∈ opened m target, Inside m p path

variable {m p} {cls : TargetClass} {raw target scanType path : String}

/-- Behind the home directory both readings of a leading `~` are the same path. -/
theorem abs_expandTilde (h : oddTilde raw = false) :
    abs m.getwd (expandTilde m raw) = abs m.getwd (expandUser m raw) := by
  unfold expandTilde expandUser
  by_cases htilde : hasPrefix raw "~" = true
  · rw [if_pos htilde, if_neg (by simp [htilde])]
    cases hhome : m.userHomeDir with
    | none => rfl
    | some home =>
      have hne : home ≠ "" := fun hempty => m.userHomeDir_ne (hhome.trans (congrArg some hempty))
      simp only
      by_cases hall : raw = "~"
      · have htrim : trimPrefix "~" "~" = "" := by decide
        rw [if_pos hall, hall, htrim, join_empty hne, abs_clean _ hne]
      · have hslash : hasPrefix raw "~/" = true := by
          by_contra hnot
          simp [oddTilde, htilde, hall, hnot] at h
        obtain ⟨rest, hrest⟩ := of_decide_eq_true hslash
        have hraw : raw = "~" ++ ("/" ++ String.ofList rest) := by
          apply String.toList_inj.mp
          simpa using hrest.symm
        have hdrop : String.ofList (raw.toList.drop 2) = String.ofList rest := by
          rw [← hrest]
          rfl
        rw [if_neg hall, if_pos (by simp [hslash]), hdrop, hraw, trimPrefix_append, join_slash hne]
  · rw [if_neg htilde, if_pos (by simpa using htilde)]

theorem looksLikeLocalPath_of_written (h : writtenLocal raw = true) :
    looksLikeLocalPath raw = true := by
  rw [looksLikeLocalPath_eq, h, Bool.true_or]

theorem validateLocalPath_ok (h : validateLocalPath m p raw = .ok ()) :
    p.allowLocalPaths = true ∧ ∃ path, abs m.getwd (expandUser m raw) = some path ∧
      withinRoots m p (resolveExistingPrefix m path) = true := by
  unfold validateLocalPath at h
  split_ifs at h with hallow hroots
  · cases h
  · cases h
  cases habs : abs m.getwd (expandUser m raw) with
  | none =>
    simp only [habs] at h
    cases h
  | some path =>
    simp only [habs] at h
    split_ifs at h with hwithin
    · exact ⟨by simpa using hallow, path, rfl, hwithin⟩
    · cases h

theorem accepted_local (h : Accepted m p target) (hlocal : looksLikeLocalPath (trimSpace target) = true) :
    validateLocalPath m p (trimSpace target) = .ok () := by
  obtain ⟨es, h⟩ := h
  dsimp only [validateTarget] at h
  split_ifs at h
  · cases (runs_pure.mp h).2
  · cases (runs_pure.mp h).2
  · exact (runs_pure.mp h).2.symm

/-- A local path is opened where its check looked. -/
theorem opened_of_accepted (h : Accepted m p target) (htilde : oddTilde (trimSpace target) = false)
    (hopen : opened m target = some path) :
    abs m.getwd (expandUser m (trimSpace target)) = some path ∧ Inside m p path := by
  obtain ⟨hexpand, _⟩ := Option.filter_eq_some_iff.mp hopen
  unfold expandLocal at hexpand
  split_ifs at hexpand with hwritten
  obtain ⟨hallow, checked, habs, hwithin⟩ :=
    validateLocalPath_ok (accepted_local h (looksLikeLocalPath_of_written hwritten))
  rw [abs_expandTilde htilde, habs] at hexpand
  obtain rfl := Option.some.inj hexpand
  exact ⟨habs, hallow, hwithin⟩

theorem inside_of_accepted (h : Accepted m p target) (htilde : oddTilde (trimSpace target) = false)
    (hopen : opened m target = some path) : Inside m p path :=
  (opened_of_accepted h htilde hopen).2

/-- Everything an accepted target has scanned as a local path is inside the roots,
exactly if so is what its check does not see. -/
theorem local_confined (h : Accepted m p target) :
    (∀ t ∈ buildTargets m target scanType, Confined m p t) ↔ Foreseen m p target scanType := by
  have hplain : (∀ path ∈ opened m target, Inside m p path) ↔
      (oddTilde (trimSpace target) = true → ∀ path ∈ opened m target, Inside m p path) := by
    constructor
    · exact fun hinside _ => hinside
    · intro hodd path hpath
      cases htilde : oddTilde (trimSpace target) with
      | true => exact hodd htilde path hpath
      | false => exact inside_of_accepted h htilde hpath
  unfold Confined
  rw [sbom_buildTargets]
  unfold scannedPath Foreseen
  cases classifyTarget m target scanType with
  | hardware => simp
  | firmware => simp
  | pod => rfl
  | website => exact hplain
  | host => exact hplain
  | ip => exact hplain
  | server => exact hplain
  | path => exact hplain

/-- A network on which nothing answers. -/
def unanswered : Handler Net Unit
  | .lookupIP _, w => (.error "no such host", w)
  | .lookupIPAddr _, w => (.error "no such host", w)
  | .dial _ _, w => (.error "unreachable", w)
  | .tlsHandshake _, w => (.error "closed", w)
  | .sshClientConn _ _, w => (.error "closed", w)
  | .parseURL _, w => (.error "no URL", w)
  | .connections _, w => ((0 : Nat), w)
  | .roundTrip _ _, w => (.error "unreachable", w)

theorem accepted_unanswered
    (h : (run unanswered (validateTarget m p target) ()).1.isOk = true) : Accepted m p target := by
  obtain ⟨es, hes⟩ := runs_run unanswered (validateTarget m p target) ()
  cases hr : (run unanswered (validateTarget m p target) ()).1 with
  | error e =>
    rw [hr] at h
    cases h
  | ok _ => exact ⟨es, hr ▸ hes⟩

/-- A directory below a root, and a file elsewhere. -/
def workstation : Machine where
  cases := asciiCase
  parseURL s := if s = "pod://ns/app@/etc/passwd" then some { scheme := "pod", host := "ns" } else none
  userHomeDir := some "/root"
  getwd := some "/srv/rivicq"
  evalSymlinks path :=
    if path = "/srv" || path = "/srv/app" || path = "/etc/passwd" then some path else none
  stat path :=
    if path = "/srv" || path = "/srv/app" then some true
    else if path = "/etc/passwd" then some false
    else none
  userHomeDir_ne := by simp
  isAbs_getwd := by decide

def rooted : TargetPolicy where
  allowLocalPaths := true
  localPathRoots := ["/srv"]
  allowPrivateNetworks := false
  allowedHosts := []

/-- A directory below a root is scanned. -/
theorem local_confined_rooted : Accepted workstation rooted "/srv/app" ∧
    ∀ t ∈ buildTargets workstation "/srv/app" "full", Confined workstation rooted t := by
  have haccepted : Accepted workstation rooted "/srv/app" :=
    accepted_unanswered (by decide)
  refine ⟨haccepted, (local_confined haccepted).mpr ?_⟩
  have hclass : classifyTarget workstation "/srv/app" "full" = .path := by decide
  have htilde : oddTilde (trimSpace "/srv/app") = false := by decide
  simp [Foreseen, hclass, htilde]

/-- The host of a pod is read as a local path, which no policy allows. -/
theorem pod_escapes : ¬ ∀ (m : Machine) (p : TargetPolicy) (target scanType : String),
    Accepted m p target → ∀ t ∈ buildTargets m target scanType, Confined m p t := by
  intro h
  have haccepted : Accepted workstation { rooted with allowLocalPaths := false }
      "pod://ns/app@/etc/passwd" :=
    accepted_unanswered (by decide)
  have hscanned : (buildTargets workstation "pod://ns/app@/etc/passwd" "full").any
      (·.protocol = "sbom") = true := by
    decide
  obtain ⟨t, ht, hsbom⟩ := List.any_eq_true.mp hscanned
  have hinside := h workstation _ _ "full" haccepted t ht (of_decide_eq_true hsbom)
  cases hinside.1

end RivicQ.Properties.Confinement
