import RivicQ.Discovery.Validation

namespace RivicQ.Discovery.Targets

open RivicQ.Lib.GoStrings RivicQ.Lib.HostPorts RivicQ.Lib.Addresses RivicQ.Lib.FilePaths
open RivicQ.Discovery.LocalPaths RivicQ.Discovery.Validation

/-- A network endpoint or a local path to scan, or an inventory that is only
declared. -/
structure Target where
  id : String
  host : String
  port : Int := 0
  protocol : String
  scheme : String := ""
  label : String
  path : String := ""
  kind : String
  «namespace» : String := ""
  workload : String := ""

inductive TargetClass where
  | website
  | host
  | ip
  | server
  | pod
  | path
  | hardware
  | firmware
  deriving DecidableEq

def TargetClass.text : TargetClass → String
  | .website => "website"
  | .host => "host"
  | .ip => "ip"
  | .server => "server"
  | .pod => "pod"
  | .path => "path"
  | .hardware => "hardware"
  | .firmware => "firmware"

/-- A declared workload. -/
structure PodSpec where
  «namespace» : String
  workload : String
  host : String

variable (m : Machine)

def isIPHost (host : String) : Bool := (parseIP (trimBrackets host)).isSome

def parseTargetHostPort (hostPort : String) : Option (String × Int) :=
  match hostPort.toList.splitOn ':' with
  | [host, port] =>
    match atoi (String.ofList port) with
    | (n, true) => some (String.ofList host, n)
    | (_, false) => none
  | _ => none

def splitHostPortFlexible (hostPort : String) : Option (String × Int) :=
  if hasPrefix hostPort "[" || 1 < hostPort.toList.count ':' then
    match splitHostPort hostPort with
    | none => none
    | some (h, p) =>
      match atoi p with
      | (n, true) => some (h, n)
      | (_, false) => none
  else parseTargetHostPort hostPort

/-- A target that is written as a local path. -/
def writtenLocal (raw : String) : Bool :=
  hasPrefix raw "./" || hasPrefix raw "../" || raw = "." || raw = ".." || hasPrefix raw "/" ||
    hasPrefix raw "~"

/-- What stands behind a leading `~` is put below the home directory. -/
def expandTilde (raw : String) : String :=
  if hasPrefix raw "~" then
    match m.userHomeDir with
    | some home => join home (trimPrefix raw "~")
    | none => raw
  else raw

/-- A local path of a target as it is opened, if the target is written as one. -/
def expandLocal (raw : String) : Option String :=
  if writtenLocal raw then some ((abs m.getwd (expandTilde m raw)).getD (expandTilde m raw))
  else none

/-- Host and port of a target that is no local path. -/
def normalizeHost (raw : String) : String × Int :=
  let parsed := if contains raw "://" then m.parseURL raw else none
  match parsed.filter fun u => u.hostname ≠ "" with
  | some u =>
    if u.port ≠ "" && (atoi u.port).2 then (u.hostname, (atoi u.port).1)
    else if u.scheme = "https" then (u.hostname, 443)
    else (u.hostname, 80)
  | none =>
    if isIPHost raw then (trimBrackets raw, 0)
    else (splitHostPortFlexible raw).getD (raw, 0)

/-- Host, port and local path of a target. -/
def normalizeTarget (target : String) : String × Int × String :=
  let raw := trimSpace target
  if raw = "" then ("localhost", 0, "")
  else
    match expandLocal m raw with
    | some path =>
      if isDir m path || isFile m path then ("local", 0, path)
      else ((normalizeHost m path).1, (normalizeHost m path).2, "")
    | none => ((normalizeHost m raw).1, (normalizeHost m raw).2, "")

def isWebsiteTarget (raw scanType : String) : Bool :=
  if equalFold m.cases (trimSpace scanType) "website" then true
  else
    let s := toLower m.cases (trimSpace raw)
    contains s "://" || hasPrefix s "www."

def httpSchemeFor (raw : String) (port : Int) : String :=
  let s := toLower m.cases (trimSpace raw)
  if hasPrefix s "http://" then "http"
  else if hasPrefix s "https://" || port = 443 then "https"
  else "http"

/-- The class a scan type names. -/
def scanTypeClass : String → Option TargetClass
  | "website" => some .website
  | "ip" => some .ip
  | "server" => some .server
  | "pod" => some .pod
  | "k8s" => some .pod
  | "kubernetes" => some .pod
  | "hardware" => some .hardware
  | "hsm" => some .hardware
  | "qsic" => some .hardware
  | "tpm" => some .hardware
  | "firmware" => some .firmware
  | "cyclonedx" => some .firmware
  | "hbom-fw" => some .firmware
  | "host" => some .host
  | _ => none

def classifyTarget (raw scanType : String) : TargetClass :=
  match scanTypeClass (toLower m.cases (trimSpace scanType)) with
  | some c => c
  | none =>
    let s := trimSpace raw
    let low := toLower m.cases s
    if hasPrefix low "pod://" || hasPrefix low "k8s://" then .pod
    else if hasPrefix low "hardware://" || hasPrefix low "hsm://" || hasPrefix low "qsic://" then
      .hardware
    else if hasPrefix low "firmware://" || hasPrefix low "cdx://" || hasSuffix low ".cdx.json" ||
        hasSuffix low ".bom.json" then
      .firmware
    else if (normalizeTarget m s).2.2 ≠ "" then .path
    else if isWebsiteTarget m s scanType then .website
    else if isIPHost (normalizeTarget m s).1 then .ip
    else .host

def looksLikeNetworkHost (s : String) : Bool :=
  if s = "" || contains s "/" then false
  else if isIPHost s then true
  else contains s "."

/-- Namespace and workload of a pod reference, before its host. -/
def parseWorkload (s : String) : String × String :=
  match cut s '/' with
  | some (ns, workload) => if ns ≠ "" && workload ≠ "" then (ns, workload) else ("default", s)
  | none => ("default", s)

def parsePodTarget (raw : String) : PodSpec :=
  let s := trimSpace raw
  let low := toLower m.cases s
  let s :=
    if hasPrefix low "pod://" || hasPrefix low "k8s://" then String.ofList (dropBytes 6 s.toList)
    else s
  let (s, host) :=
    match cutLast s.toList '@' with
    | some (front, host) => (trimSpace (String.ofList front), trimSpace (String.ofList host))
    | none => (s, "")
  let (ns, workload) := parseWorkload s
  let host :=
    if host = "" && (looksLikeNetworkHost workload || isIPHost workload) then workload else host
  { «namespace» := ns, workload := workload, host := host }

/-- Strip the first of several prefixes whose removal, with the letters in lower
case, changes the length. -/
def stripLabel (length : Nat) : List String → String → String
  | [], s => s
  | p :: ps, s =>
    let s := trimPrefix (toLower m.cases s) p
    if len s ≠ length then s else stripLabel length ps s

def parseHardwareLabel (raw : String) : String :=
  let s := stripLabel m (len (trimSpace raw)) ["hardware://", "hsm://", "qsic://", "tpm://"]
    (trimSpace raw)
  if s = "" then "declared-crypto-module" else s

def parseFirmwareLabel (raw : String) : String :=
  let s := trimSpace raw
  let low := toLower m.cases s
  let s :=
    if hasPrefix low "firmware://" then trimSpace (String.ofList (dropBytes 11 s.toList))
    else if hasPrefix low "cdx://" then trimSpace (String.ofList (dropBytes 6 s.toList))
    else s
  if s = "" then "declared-firmware" else s

/-- The names of the work items of one call, in turn. -/
def targetID (n : Nat) : String := "target-" ++ toString n

section Hosts

variable (cls : TargetClass) (target scanType host scheme : String) (port : Int) (website : Bool)

def includeSSH : Bool :=
  if cls = .host || cls = .ip || cls = .server then !equalFold m.cases scanType "website"
  else !website || equalFold m.cases scanType "full"

def includeHTTP : Bool := website || !equalFold m.cases scanType "quick"

def tlsTarget (n : Nat) : Target where
  id := targetID n
  host := host
  port := if website && scheme = "http" && port = 80 then 443 else port
  protocol := "tls"
  kind := cls.text
  label := "TLS Scan: " ++ target

def sshTarget (n : Nat) : Target where
  id := targetID n
  host := host
  port := 22
  protocol := "ssh"
  kind := cls.text
  label := "SSH Scan: " ++ target

def httpTarget (n : Nat) : Target :=
  let httpScheme := if website then (if scheme = "" then "https" else scheme) else "http"
  { id := targetID n, host := host, port := if website then port else 80, protocol := "http"
    scheme := httpScheme, kind := cls.text
    label := toUpper m.cases httpScheme ++ " Scan: " ++ target }

/-- The scanners for a host, with the first number that is free for a name. -/
def hostTargets (n : Nat) : List Target :=
  let ssh := if includeSSH m cls scanType website then [sshTarget cls target host (n + 1)] else []
  let http :=
    if includeHTTP m scanType website then
      [httpTarget m cls target host scheme port website (n + 1 + ssh.length)]
    else []
  tlsTarget cls target host scheme port website n :: (ssh ++ http)

end Hosts

def sbomTarget (target path : String) : Target where
  id := targetID 1
  host := "local"
  path := path
  protocol := "sbom"
  kind := TargetClass.path.text
  label := "SBOM Scan: " ++ target

def defaultPort (scheme : String) (port : Int) : Int :=
  if port = 0 then (if scheme = "http" then 80 else 443) else port

/-- The work items for a target that is neither declared nor a pod. -/
def plainTargets (cls : TargetClass) (target scanType : String) : List Target :=
  let (host, port, path) := normalizeTarget m target
  let website := cls = .website || isWebsiteTarget m target scanType
  let scheme := httpSchemeFor m target port
  let rawLower := toLower m.cases (trimSpace target)
  let scheme :=
    if website && !hasPrefix rawLower "http://" && scheme ≠ "https" then "https" else scheme
  if path ≠ "" && (isDir m path || isFile m path) then
    if scanType ≠ "full" then [sbomTarget target path]
    else
      sbomTarget target path :: hostTargets m cls target scanType "localhost" "http" 80 false 2
  else if host = "" then []
  else hostTargets m cls target scanType host scheme (defaultPort scheme port) website 1

/-- The work list of a scan. The host of a pod is scanned as a website. -/
def buildTargets (target scanType : String) : List Target :=
  match classifyTarget m target scanType with
  | .hardware =>
    let label := parseHardwareLabel m target
    [{ id := targetID 1, host := "declared", protocol := "hardware"
       kind := TargetClass.hardware.text, label := "Hardware inventory: " ++ label, path := label }]
  | .firmware =>
    let label := parseFirmwareLabel m target
    [{ id := targetID 1, host := "declared", protocol := "firmware"
       kind := TargetClass.firmware.text, label := "Firmware inventory: " ++ label, path := label }]
  | .pod =>
    let spec := parsePodTarget m target
    let inventory : Target :=
      { id := targetID 1, host := spec.host, protocol := "k8s", kind := TargetClass.pod.text
        label := "K8s inventory: " ++ spec.namespace ++ "/" ++ spec.workload
        «namespace» := spec.namespace, workload := spec.workload }
    inventory ::
      if spec.host ≠ "" then plainTargets m .website spec.host "website" else []
  | cls => plainTargets m cls target scanType

/-- The file or directory that a target is opened as. -/
def opened (target : String) : Option String :=
  (expandLocal m (trimSpace target)).filter fun path => isDir m path || isFile m path

/-- The file or directory that a target has scanned, if any. -/
def scannedPath (target scanType : String) : Option String :=
  match classifyTarget m target scanType with
  | .hardware => none
  | .firmware => none
  | .pod => opened m (parsePodTarget m target).host
  | _ => opened m target

section Plain

variable {m} {cls : TargetClass} {target scanType host scheme path raw : String} {port : Int}
  {website : Bool} {n : Nat} {t : Target}

/-- The check takes one more kind of text for a local path. -/
theorem looksLikeLocalPath_eq :
    looksLikeLocalPath raw = (writtenLocal raw || hasPrefix raw "\\\\") := by
  simp only [looksLikeLocalPath, writtenLocal]
  ac_rfl

theorem writtenLocal_ne_empty (h : writtenLocal raw = true) : raw ≠ "" := by
  rintro rfl
  exact absurd h (by decide)

theorem abs_ne_empty {wd : Option String} (hraw : raw ≠ "") (h : abs wd raw = some path) :
    path ≠ "" := by
  unfold RivicQ.Lib.FilePaths.abs at h
  split_ifs at h
  · obtain rfl := Option.some.inj h
    exact clean_ne_empty
  · obtain ⟨w, _, rfl⟩ := Option.map_eq_some_iff.mp h
    unfold join
    split_ifs
    · exact clean_ne_empty
    · exact clean_ne_empty

theorem expandTilde_ne_empty (h : raw ≠ "") : expandTilde m raw ≠ "" := by
  unfold expandTilde
  split_ifs
  · cases hhome : m.userHomeDir with
    | none => exact h
    | some home =>
      have hne : home ≠ "" := fun hempty => m.userHomeDir_ne (hhome.trans (congrArg some hempty))
      simp only [join, if_pos hne]
      exact clean_ne_empty
  · exact h

theorem expandLocal_ne_empty (h : expandLocal m raw = some path) : path ≠ "" := by
  unfold expandLocal at h
  split_ifs at h with hlocal
  have hne := expandTilde_ne_empty (m := m) (writtenLocal_ne_empty hlocal)
  obtain rfl := Option.some.inj h
  cases habs : abs m.getwd (expandTilde m raw) with
  | none => exact hne
  | some path => exact abs_ne_empty hne habs

theorem expandLocal_empty : expandLocal m "" = none := by
  have h : ¬ writtenLocal "" = true := fun h => writtenLocal_ne_empty h rfl
  rw [expandLocal, if_neg h]

theorem normalizeTarget_opened (h : opened m target = some path) :
    normalizeTarget m target = ("local", 0, path) := by
  obtain ⟨hexpand, hexists⟩ := Option.filter_eq_some_iff.mp h
  have hraw : trimSpace target ≠ "" := by
    intro hraw
    rw [hraw, expandLocal_empty] at hexpand
    cases hexpand
  simp only [normalizeTarget, if_neg hraw, hexpand, hexists, if_true]

theorem normalizeTarget_not_opened (h : opened m target = none) (hraw : trimSpace target ≠ "") :
    normalizeTarget m target =
      ((normalizeHost m ((expandLocal m (trimSpace target)).getD (trimSpace target))).1,
        (normalizeHost m ((expandLocal m (trimSpace target)).getD (trimSpace target))).2, "") := by
  cases hexpand : expandLocal m (trimSpace target) with
  | none => simp only [normalizeTarget, if_neg hraw, hexpand, Option.getD_none]
  | some path =>
    have hnot : ¬ (isDir m path || isFile m path) = true := by
      simpa using (Option.filter_eq_none_iff.mp h) path hexpand
    simp only [normalizeTarget, if_neg hraw, hexpand, if_neg hnot, Option.getD_some]

/-- Every scan of a host is of one of three kinds. -/
theorem mem_hostTargets (h : t ∈ hostTargets m cls target scanType host scheme port website n) :
    ∃ k, t = tlsTarget cls target host scheme port website k ∨ t = sshTarget cls target host k ∨
      t = httpTarget m cls target host scheme port website k := by
  obtain rfl | h := List.mem_cons.mp h
  · exact ⟨n, Or.inl rfl⟩
  obtain h | h := List.mem_append.mp h
  · split_ifs at h
    · exact ⟨n + 1, Or.inr (Or.inl (List.mem_singleton.mp h))⟩
    · cases h
  · split_ifs at h
    all_goals first
      | cases h; done
      | exact ⟨_, Or.inr (Or.inr (List.mem_singleton.mp h))⟩

theorem plainTargets_opened (h : opened m target = some path) :
    plainTargets m cls target scanType =
      if scanType ≠ "full" then [sbomTarget target path]
      else sbomTarget target path ::
        hostTargets m cls target scanType "localhost" "http" 80 false 2 := by
  obtain ⟨hexpand, hexists⟩ := Option.filter_eq_some_iff.mp h
  have hpath : (path ≠ "" && (isDir m path || isFile m path)) = true := by
    simp [expandLocal_ne_empty hexpand, hexists]
  simp only [plainTargets, normalizeTarget_opened h, hpath, if_true]

theorem normalizeTarget_path (h : opened m target = none) : (normalizeTarget m target).2.2 = "" := by
  by_cases hraw : trimSpace target = ""
  · simp only [normalizeTarget, if_pos hraw]
  · rw [normalizeTarget_not_opened h hraw]

theorem plainTargets_not_opened (cls : TargetClass) (scanType : String) (h : opened m target = none) :
    ∃ scheme website, plainTargets m cls target scanType =
      if (normalizeTarget m target).1 = "" then []
      else hostTargets m cls target scanType (normalizeTarget m target).1 scheme
        (defaultPort scheme (normalizeTarget m target).2.1) website 1 := by
  simp only [plainTargets, normalizeTarget_path h, ne_eq, not_true, decide_false, Bool.false_and,
    Bool.false_eq_true, if_false]
  exact ⟨_, _, rfl⟩

theorem opened_empty : opened m "" = none := by
  have htrim : trimSpace "" = "" := by decide
  rw [opened, htrim, expandLocal_empty]
  rfl

theorem hostTargets_not_sbom
    (h : t ∈ hostTargets m cls target scanType host scheme port website n) :
    t.protocol ≠ "sbom" := by
  obtain ⟨k, rfl | rfl | rfl⟩ := mem_hostTargets h
  all_goals simp [tlsTarget, sshTarget, httpTarget]

/-- What a plain target has scanned as a local path is what it is opened as. -/
theorem sbom_plainTargets {Q : String → Prop} :
    (∀ t ∈ plainTargets m cls target scanType, t.protocol = "sbom" → Q t.path) ↔
      ∀ path ∈ opened m target, Q path := by
  cases hopen : opened m target with
  | none =>
    refine iff_of_true (fun t ht hsbom => ?_) (by simp)
    obtain ⟨scheme, website, heq⟩ := plainTargets_not_opened cls scanType hopen
    rw [heq] at ht
    split_ifs at ht
    · cases ht
    · exact absurd hsbom (hostTargets_not_sbom ht)
  | some path =>
    simp only [Option.mem_some_iff, forall_eq']
    rw [plainTargets_opened hopen]
    constructor
    · intro h
      refine h (sbomTarget target path) ?_ rfl
      split_ifs
      · exact List.mem_cons_self
      · exact List.mem_cons_self
    · intro hpath t ht hsbom
      have hcase : t = sbomTarget target path ∨
          t ∈ hostTargets m cls target scanType "localhost" "http" 80 false 2 := by
        split_ifs at ht
        · exact Or.inl (List.mem_singleton.mp ht)
        · exact List.mem_cons.mp ht
      obtain rfl | ht := hcase
      · exact hpath
      · exact absurd hsbom (hostTargets_not_sbom ht)

theorem sbom_buildTargets {Q : String → Prop} :
    (∀ t ∈ buildTargets m target scanType, t.protocol = "sbom" → Q t.path) ↔
      ∀ path ∈ scannedPath m target scanType, Q path := by
  unfold buildTargets scannedPath
  cases classifyTarget m target scanType with
  | hardware => simp
  | firmware => simp
  | pod =>
    simp only [List.mem_cons, forall_eq_or_imp]
    by_cases hhost : (parsePodTarget m target).host = ""
    · simp [hhost, opened_empty]
    · rw [if_pos hhost, sbom_plainTargets]
      simp
  | website => exact sbom_plainTargets
  | host => exact sbom_plainTargets
  | ip => exact sbom_plainTargets
  | server => exact sbom_plainTargets
  | path => exact sbom_plainTargets

theorem tlsTarget_mem : tlsTarget cls target host scheme port website n ∈
    hostTargets m cls target scanType host scheme port website n := List.mem_cons_self

end Plain

end RivicQ.Discovery.Targets
