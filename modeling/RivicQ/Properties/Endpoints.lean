import RivicQ.Properties.Confinement

namespace RivicQ.Properties.Endpoints

open RivicQ.Lib.GoStrings RivicQ.Lib.Paths RivicQ.Lib.HostPorts RivicQ.Lib.URLs RivicQ.Lib.FilePaths
open RivicQ.Lib.Programs RivicQ.Lib.Traces
open RivicQ.Discovery.Network RivicQ.Discovery.Policies RivicQ.Discovery.LocalPaths
open RivicQ.Discovery.Validation RivicQ.Discovery.Targets RivicQ.Properties.Confinement

section Flexible

variable {raw host port : String} {n : Int}

theorem parseTargetHostPort_some (h : parseTargetHostPort raw = some (host, n)) :
    ∃ port, raw.toList = host.toList ++ ':' :: port.toList ∧ ':' ∉ host.toList ∧
      atoi port = (n, true) := by
  unfold parseTargetHostPort at h
  have hjoin : [':'].intercalate (raw.toList.splitOn ':') = raw.toList :=
    List.intercalate_splitOn ':'
  have hcolon : ∀ s ∈ raw.toList.splitOn ':', ':' ∉ s := fun s hs => not_mem_splitOn hs
  split at h
  · rename_i a b hsplit
    rw [hsplit] at hjoin hcolon
    split at h
    · rename_i k hatoi
      cases h
      refine ⟨String.ofList b, ?_, ?_, hatoi⟩
      · simpa using hjoin.symm
      · simpa using hcolon a List.mem_cons_self
    · cases h
  · cases h

theorem parseTargetHostPort_append (hhost : ':' ∉ host.toList) (hport : ':' ∉ port.toList)
    (h : raw.toList = host.toList ++ ':' :: port.toList) :
    parseTargetHostPort raw = if (atoi port).2 then some (host, (atoi port).1) else none := by
  have hsplit : raw.toList.splitOn ':' = [host.toList, port.toList] := by
    rw [h, List.splitOn_append_cons_self_of_not_mem hhost, List.splitOn_eq_singleton hport]
  simp only [parseTargetHostPort, hsplit, String.ofList_toList]
  obtain ⟨n, ok⟩ := atoi port
  cases ok <;> rfl

theorem hasPrefix_bracket : hasPrefix raw "[" = true ↔ raw.toList.head? = some '[' := by
  have hbracket : "[".toList = ['['] := rfl
  rw [hasPrefix, decide_eq_true_iff, hbracket, List.head?_eq_some_iff]
  constructor
  · rintro ⟨rest, hrest⟩
    exact ⟨rest, hrest.symm⟩
  · rintro ⟨rest, hrest⟩
    exact ⟨rest, hrest.symm⟩

theorem head_append (hhost : Plain host) : (host.toList ++ ':' :: port.toList).head? ≠ some '[' := by
  cases hlist : host.toList with
  | nil => simp
  | cons c rest =>
    intro hhead
    obtain rfl := Option.some.inj hhead
    exact hhost.1 (hlist ▸ List.mem_cons_self)

/-- What can be split is split the same way, if its port is a number. -/
theorem splitHostPortFlexible_some (h : splitHostPort raw = some (host, port)) :
    splitHostPortFlexible raw = if (atoi port).2 then some (host, (atoi port).1) else none := by
  obtain ⟨htext | ⟨htext, hhost⟩, hplain, _, hport⟩ := splitHostPort_cases h
  · have hbracket : hasPrefix raw "[" = true := by
      simp [hasPrefix, htext]
    simp only [splitHostPortFlexible, hbracket, Bool.true_or, if_true, h]
    obtain ⟨n, ok⟩ := atoi port
    cases ok <;> rfl
  · have hcount : raw.toList.count ':' = 1 := by
      rw [htext, List.count_append, List.count_cons_self, List.count_eq_zero.mpr hhost,
        List.count_eq_zero.mpr hport]
    have hbracket : ¬ hasPrefix raw "[" = true := by
      rw [hasPrefix_bracket, htext]
      exact head_append hplain
    rw [splitHostPortFlexible, if_neg (by simp [hbracket, hcount]),
      parseTargetHostPort_append hhost hport htext]

theorem splitHostPortFlexible_none (h : splitHostPort raw = none) :
    splitHostPortFlexible raw = if hasPrefix raw "[" || 1 < raw.toList.count ':' then none
      else parseTargetHostPort raw := by
  simp only [splitHostPortFlexible, h]

end Flexible

section Reading

variable (m : Machine)

/-- The URL that a target is read as. -/
def urlOf (raw : String) : Option URL :=
  (if contains raw "://" then m.parseURL raw else none).filter fun u => u.hostname ≠ ""

/-- A text whose host both parsers find: a URL whose host has no port or is split as
it says, or an address, a host with a number for its port, or a host that ends in no
brackets and has no port. -/
def ReadAlike (raw : String) : Prop :=
  match urlOf m raw with
  | some u =>
    splitHostPort u.host = some (u.hostname, u.port) ∨
      splitHostPort u.host = none ∧ u.port = "" ∧ trimBrackets u.host = u.hostname
  | none =>
    match splitHostPort raw with
    | some (_, port) => isIPHost raw = false ∧ (atoi port).2 = true
    | none => isIPHost raw = true ∨ parseTargetHostPort raw = none ∧ trimBrackets raw = raw

variable {m} {raw host port : String}

theorem hostPart_url {u : URL} (h : urlOf m raw = some u) : hostPart m raw = u.host := by
  obtain ⟨hparse, hname⟩ := Option.filter_eq_some_iff.mp h
  split_ifs at hparse with hcontains
  have hname : u.hostname ≠ "" := by simpa using hname
  simp only [hostPart, hcontains, if_true, hparse, if_pos hname]

theorem hostPart_text (h : urlOf m raw = none) : hostPart m raw = raw := by
  have hno := Option.filter_eq_none_iff.mp h
  unfold hostPart
  split_ifs with hcontains
  · cases hparse : m.parseURL raw with
    | none => rfl
    | some u =>
      have hname := hno u (by rw [if_pos hcontains, hparse])
      simp only
      rw [if_neg (by simpa using hname)]
  · rfl

theorem normalizeHost_url {u : URL} (h : urlOf m raw = some u) : normalizeHost m raw =
    if u.port ≠ "" && (atoi u.port).2 then (u.hostname, (atoi u.port).1)
    else if u.scheme = "https" then (u.hostname, 443)
    else (u.hostname, 80) := by
  unfold urlOf at h
  simp only [normalizeHost, h]

theorem normalizeHost_text (h : urlOf m raw = none) : normalizeHost m raw =
    if isIPHost raw then (trimBrackets raw, 0) else (splitHostPortFlexible raw).getD (raw, 0) := by
  unfold urlOf at h
  simp only [normalizeHost, h]

theorem splitTrimmed_some (h : splitHostPort raw = some (host, port)) :
    splitTrimmed raw = (host, (atoi port).1) := by
  simp only [splitTrimmed, h, trimBrackets_plain (splitHostPort_plain h).1]

theorem splitTrimmed_none (h : splitHostPort raw = none) :
    splitTrimmed raw = (trimBrackets raw, 0) := by
  simp only [splitTrimmed, h]

theorem length_split (h : splitHostPort raw = some (host, port)) :
    host.toList.length < raw.toList.length := by
  obtain ⟨htext | ⟨htext, _⟩, _⟩ := splitHostPort_cases h
  · rw [htext, List.length_cons, List.length_append]
    omega
  · rw [htext, List.length_append, List.length_cons]
    omega

theorem split_ne_self (h : splitHostPort raw = some (host, port)) : raw ≠ host := by
  intro he
  have hlen := length_split h
  rw [he] at hlen
  omega

theorem split_ne_trimmed (h : splitHostPort raw = some (host, port)) : trimBrackets raw ≠ host := by
  intro he
  obtain ⟨htext | ⟨htext, hhost⟩, hplain, hport, _⟩ := splitHostPort_cases h
  · have htrim := trimBrackets_port (x := '[' :: host.toList ++ [']']) hport (by simpa using htext)
    rw [he, List.cons_append, List.dropWhile_cons_of_pos (by decide)] at htrim
    exact prefix_ne_dropWhile (List.prefix_append host.toList [']']) htrim
  · have hcolon : ':' ∈ raw.toList := by
      rw [htext]
      exact List.mem_append_right _ List.mem_cons_self
    exact hhost (he ▸ mem_trimBrackets (by decide) hcolon)

/-- A port that is only seen by one of the parsers. -/
theorem flexible_ne_trimmed {n : Int} (hparse : parseTargetHostPort raw = some (host, n)) :
    trimBrackets raw ≠ host := by
  intro he
  obtain ⟨port, htext, hhost, _⟩ := parseTargetHostPort_some hparse
  have hcolon : ':' ∈ raw.toList := by
    rw [htext]
    exact List.mem_append_right _ List.mem_cons_self
  exact hhost (he ▸ mem_trimBrackets (by decide) hcolon)

theorem bracketed_ne_trimmed {n : Int} (hparse : parseTargetHostPort raw = some (host, n))
    (h : (hasPrefix raw "[" || decide (1 < raw.toList.count ':')) = true) :
    raw ≠ trimBrackets raw := by
  intro he
  obtain ⟨port, htext, hhost, hatoi⟩ := parseTargetHostPort_some hparse
  have hport : ':' ∉ port.toList := (atoi_plain (by rw [hatoi])).2
  have hcount : raw.toList.count ':' = 1 := by
    rw [htext, List.count_append, List.count_cons_self, List.count_eq_zero.mpr hhost,
      List.count_eq_zero.mpr hport]
  rw [hcount] at h
  exact head_trimBrackets he.symm (hasPrefix_bracket.mp (by simpa using h))

/-- Without a URL the two parsers find the same host in just these texts. -/
theorem readAlike_text (h : urlOf m raw = none) :
    ReadAlike m raw ↔ (normalizeHost m raw).1 = (hostAndPort m raw).1 := by
  rw [hostAndPort, hostPart_text h, normalizeHost_text h]
  unfold ReadAlike
  simp only [h]
  cases hsplit : splitHostPort raw with
  | some parts =>
    obtain ⟨host, port⟩ := parts
    rw [splitTrimmed_some hsplit, splitHostPortFlexible_some hsplit]
    cases hip : isIPHost raw with
    | true => simp [split_ne_trimmed hsplit]
    | false =>
      cases hnumber : (atoi port).2 with
      | true => simp [hnumber]
      | false => simp [hnumber, split_ne_self hsplit]
  | none =>
    rw [splitTrimmed_none hsplit, splitHostPortFlexible_none hsplit]
    cases hip : isIPHost raw with
    | true => simp
    | false =>
      cases hparse : parseTargetHostPort raw with
      | none =>
        simp only [ite_self, Option.getD_none, Bool.false_eq_true, if_false, false_or, true_and]
        exact eq_comm
      | some found =>
        obtain ⟨host, n⟩ := found
        have hne := (flexible_ne_trimmed hparse).symm
        simp only [reduceCtorEq, Bool.false_eq_true, false_and, or_false, if_false, false_iff]
        split_ifs with hcond
        · exact bracketed_ne_trimmed hparse hcond
        · exact hne

/-- A URL whose host is all that is left without brackets has no port. -/
theorem port_empty {u : URL} (h : u.hostname = trimBrackets u.host) : u.port = "" := by
  by_contra hne
  obtain ⟨front, htext, hdigits, hname⟩ := URL.hostPort_of_port hne
  have hplain : Plain u.port :=
    ⟨fun hmem => Bool.noConfusion (List.all_eq_true.mp hdigits '[' hmem),
      fun hmem => Bool.noConfusion (List.all_eq_true.mp hdigits ']' hmem)⟩
  have htrim := trimBrackets_port hplain htext
  rw [← h] at htrim
  obtain hfront | ⟨rest, rfl, hrest⟩ := hname
  · rw [hfront] at htrim
    exact prefix_ne_dropWhile (List.prefix_refl front) htrim
  · rw [hrest, List.dropWhile_cons_of_pos (by decide)] at htrim
    exact prefix_ne_dropWhile rest.dropLast_prefix htrim

/-- Of a URL they find the same host if the host is split where it is said to be. -/
theorem readAlike_url {u : URL} (h : urlOf m raw = some u) :
    ReadAlike m raw ↔ (normalizeHost m raw).1 = (hostAndPort m raw).1 := by
  have hname : (normalizeHost m raw).1 = u.hostname := by
    rw [normalizeHost_url h]
    split_ifs <;> rfl
  rw [hostAndPort, hostPart_url h, hname]
  unfold ReadAlike
  simp only [h]
  cases hsplit : splitHostPort u.host with
  | some parts =>
    obtain ⟨host, port⟩ := parts
    rw [splitTrimmed_some hsplit]
    simp only [Option.some.injEq, Prod.mk.injEq, reduceCtorEq, false_and, or_false]
    cases hvalid : validOptionalPort (':' :: port.toList) with
    | true =>
      obtain ⟨rfl, rfl⟩ := URL.hostPort_valid hsplit hvalid
      simp
    | false =>
      rw [URL.hostPort_invalid hsplit hvalid]
      have hne := split_ne_self hsplit
      simp [hne, hne.symm]
  | none =>
    rw [splitTrimmed_none hsplit]
    simp only [reduceCtorEq, true_and, false_or]
    constructor
    · exact fun hboth => hboth.2.symm
    · exact fun he => ⟨port_empty he, he.symm⟩

theorem readAlike_iff : ReadAlike m raw ↔ (normalizeHost m raw).1 = (hostAndPort m raw).1 := by
  cases h : urlOf m raw with
  | none => exact readAlike_text h
  | some u => exact readAlike_url h

/-- A port that is read differently was left open, and is that of the scheme. -/
theorem readAlike_port (h : ReadAlike m raw) :
    (normalizeHost m raw).2 = (hostAndPort m raw).2 ∨ (normalizeHost m raw).2 = 0 ∨
      (normalizeHost m raw).2 = 443 ∨ (normalizeHost m raw).2 = 80 := by
  unfold ReadAlike at h
  cases hurl : urlOf m raw with
  | none =>
    simp only [hurl] at h
    rw [hostAndPort, hostPart_text hurl, normalizeHost_text hurl]
    cases hsplit : splitHostPort raw with
    | some parts =>
      obtain ⟨host, port⟩ := parts
      simp only [hsplit] at h
      rw [splitTrimmed_some hsplit, splitHostPortFlexible_some hsplit, h.1, h.2]
      exact Or.inl rfl
    | none =>
      simp only [hsplit] at h
      right
      left
      obtain hip | ⟨hparse, _⟩ := h
      · rw [if_pos hip]
      · rw [splitHostPortFlexible_none hsplit, hparse, ite_self]
        split_ifs <;> rfl
  | some u =>
    simp only [hurl] at h
    rw [hostAndPort, hostPart_url hurl, normalizeHost_url hurl]
    split_ifs with hport
    · left
      obtain hsplit | ⟨_, hempty, _⟩ := h
      · rw [splitTrimmed_some hsplit]
      · simp [hempty] at hport
    · exact Or.inr (Or.inr (Or.inl rfl))
    · exact Or.inr (Or.inr (Or.inr rfl))

theorem trimBrackets_ne_empty {c : Char} (hc : isBracket c = false) (h : c ∈ raw.toList) :
    trimBrackets raw ≠ "" := by
  intro hempty
  have hmem := mem_trimBrackets hc h
  rw [hempty] at hmem
  cases hmem

theorem colon_mem (h : splitHostPort raw = some (host, port)) : ':' ∈ raw.toList := by
  obtain ⟨htext | ⟨htext, _⟩, _⟩ := splitHostPort_cases h
  · simp [htext]
  · simp [htext]

theorem parse_ne_empty {n : Int} (hsplit : splitHostPort raw = none)
    (hparse : parseTargetHostPort raw = some (host, n)) : host ≠ "" := by
  rintro rfl
  obtain ⟨port, htext, hhost, hatoi⟩ := parseTargetHostPort_some hparse
  obtain ⟨hplain, hcolon⟩ := atoi_plain (s := port) (by rw [hatoi])
  have hempty : Plain "" := ⟨List.not_mem_nil, List.not_mem_nil⟩
  rw [splitHostPort_append hempty hplain hhost hcolon htext] at hsplit
  cases hsplit

theorem normalizeHost_url_ne_empty {u : URL} (h : urlOf m raw = some u) :
    (normalizeHost m raw).1 ≠ "" := by
  obtain ⟨_, hname⟩ := Option.filter_eq_some_iff.mp h
  have hname : u.hostname ≠ "" := by simpa using hname
  rw [normalizeHost_url h]
  split_ifs <;> exact hname

theorem normalizeHost_ne_empty (hraw : raw ≠ "") (htrim : trimBrackets raw ≠ "")
    (hhost : ∀ host port, splitHostPort raw = some (host, port) → host ≠ "") :
    (normalizeHost m raw).1 ≠ "" := by
  cases hurl : urlOf m raw with
  | some u => exact normalizeHost_url_ne_empty hurl
  | none =>
    rw [normalizeHost_text hurl]
    cases hsplit : splitHostPort raw with
    | some parts =>
      obtain ⟨host, port⟩ := parts
      rw [splitHostPortFlexible_some hsplit]
      split_ifs
      · exact htrim
      · exact hhost host port hsplit
      · exact hraw
    | none =>
      rw [splitHostPortFlexible_none hsplit]
      split_ifs
      · exact htrim
      · exact hraw
      · cases hparse : parseTargetHostPort raw with
        | none => exact hraw
        | some found => exact parse_ne_empty hsplit hparse

/-- Where the check finds a host, so does the scanner. -/
theorem normalizeHost_of_checked (hraw : raw ≠ "") (hchecked : (hostAndPort m raw).1 ≠ "") :
    (normalizeHost m raw).1 ≠ "" := by
  cases hurl : urlOf m raw with
  | some u => exact normalizeHost_url_ne_empty hurl
  | none =>
    rw [hostAndPort, hostPart_text hurl] at hchecked
    cases hsplit : splitHostPort raw with
    | some parts =>
      obtain ⟨host, port⟩ := parts
      rw [splitTrimmed_some hsplit] at hchecked
      refine normalizeHost_ne_empty hraw (trimBrackets_ne_empty (by decide) (colon_mem hsplit)) ?_
      intro host' port' hsplit'
      rw [hsplit] at hsplit'
      cases hsplit'
      exact hchecked
    | none =>
      rw [splitTrimmed_none hsplit] at hchecked
      refine normalizeHost_ne_empty hraw hchecked fun host' port' hsplit' => ?_
      rw [hsplit] at hsplit'
      cases hsplit'

/-- A path is read as a host that is not empty. -/
theorem normalizeHost_of_path {c : Char} (hhead : raw.toList.head? = some c)
    (hbracket : isBracket c = false) (hcolon : c ≠ ':') : (normalizeHost m raw).1 ≠ "" := by
  apply normalizeHost_ne_empty
  · rintro rfl
    cases hhead
  · exact trimBrackets_ne_empty hbracket (List.mem_of_mem_head? hhead)
  · rintro host port hsplit rfl
    obtain ⟨htext | ⟨htext, _⟩, _⟩ := splitHostPort_cases hsplit
    · rw [htext] at hhead
      obtain rfl := Option.some.inj hhead
      cases hbracket
    · rw [htext] at hhead
      exact hcolon (Option.some.inj hhead).symm

end Reading

variable (m : Machine) (p : TargetPolicy)

/-- The host that validation checks. -/
def checkedHost (target : String) : String := (hostAndPort m (trimSpace target)).1

/-- A port that the policy permits to scan. -/
def PortAllowed (port : Int) : Prop := p.allowedHosts ≠ [] ∨ isCommonScanPort port = true

def Network (t : Target) : Prop := t.protocol = "tls" ∨ t.protocol = "ssh" ∨ t.protocol = "http"

/-- What is scanned over the network is the host that was checked, at a permitted
port. -/
def Checked (target : String) (t : Target) : Prop :=
  Network t → looksLikeLocalPath (trimSpace target) = false ∧ t.host = checkedHost m target ∧
    PortAllowed p t.port

/-- The host of a pod leads nowhere, or is itself the one that was checked. -/
def PodSettled (target : String) : Prop :=
  let host := (parsePodTarget m target).host
  host = "" ∨ (opened m host).isSome = true ∨ (normalizeTarget m host).1 = "" ∨
    (looksLikeLocalPath (trimSpace target) = false ∧
      (normalizeTarget m host).1 = checkedHost m target ∧
      ((normalizeTarget m host).2.1 = 0 ∨ PortAllowed p (normalizeTarget m host).2.1))

/-- Targets that are read alike where they are checked and where they are scanned. -/
def Settled (target scanType : String) : Prop :=
  match classifyTarget m target scanType with
  | .hardware => True
  | .firmware => True
  | .pod => PodSettled m p target
  | _ =>
    if looksLikeLocalPath (trimSpace target) then
      (opened m target).isSome = true ∧ scanType ≠ "full"
    else ReadAlike m (trimSpace target)

variable {m p} {cls : TargetClass} {target text scanType host scheme path : String} {port : Int}
  {website : Bool} {n : Nat}

theorem portAllowed_default :
    PortAllowed p (defaultPort scheme port) ↔ port = 0 ∨ PortAllowed p port := by
  unfold defaultPort
  split_ifs with hzero hscheme
  · exact iff_of_true (Or.inr (by decide)) (Or.inl hzero)
  · exact iff_of_true (Or.inr (by decide)) (Or.inl hzero)
  · simp [hzero]

/-- The scans of a host are checked if the host and its port are. -/
theorem checked_hosts :
    (∀ t ∈ hostTargets m cls text scanType host scheme port website n, Checked m p target t) ↔
      looksLikeLocalPath (trimSpace target) = false ∧ host = checkedHost m target ∧
        PortAllowed p port := by
  constructor
  · intro h
    obtain ⟨hlocal, hhost, hport⟩ := h _ tlsTarget_mem (Or.inl rfl)
    refine ⟨hlocal, hhost, ?_⟩
    simp only [tlsTarget] at hport
    split_ifs at hport with h80
    · simp only [Bool.and_eq_true, decide_eq_true_eq] at h80
      rw [h80.2]
      exact Or.inr (by decide)
    · exact hport
  · rintro ⟨hlocal, hhost, hport⟩ t ht _
    have hcommon : ∀ k : Int, isCommonScanPort k = true → PortAllowed p k := fun k hk => Or.inr hk
    obtain ⟨k, rfl | rfl | rfl⟩ := mem_hostTargets ht
    · refine ⟨hlocal, hhost, ?_⟩
      simp only [tlsTarget]
      split_ifs
      · exact hcommon 443 (by decide)
      · exact hport
    · exact ⟨hlocal, hhost, hcommon 22 (by decide)⟩
    · refine ⟨hlocal, hhost, ?_⟩
      simp only [httpTarget]
      split_ifs
      · exact hport
      · exact hcommon 80 (by decide)

/-- What is no file is scanned at the host and the port it is read as. -/
theorem checked_plain (h : opened m text = none) :
    (∀ t ∈ plainTargets m cls text scanType, Checked m p target t) ↔
      (normalizeTarget m text).1 = "" ∨
        (looksLikeLocalPath (trimSpace target) = false ∧
          (normalizeTarget m text).1 = checkedHost m target ∧
          ((normalizeTarget m text).2.1 = 0 ∨ PortAllowed p (normalizeTarget m text).2.1)) := by
  obtain ⟨scheme, website, heq⟩ := plainTargets_not_opened cls scanType h
  rw [heq]
  split_ifs with hempty
  · simp [hempty]
  · rw [checked_hosts, portAllowed_default]
    simp [hempty]

theorem checked_file (h : opened m text = some path) :
    (∀ t ∈ plainTargets m cls text scanType, Checked m p target t) ↔
      scanType ≠ "full" ∨ (looksLikeLocalPath (trimSpace target) = false ∧
        "localhost" = checkedHost m target ∧ PortAllowed p 80) := by
  have hsbom : Checked m p target (sbomTarget text path) := by
    rintro (h | h | h) <;> simp [sbomTarget] at h
  rw [plainTargets_opened h]
  split_ifs with hfull
  · simp [hfull, hsbom]
  · rw [List.forall_mem_cons, checked_hosts]
    simp [hfull, hsbom]

theorem validateHostPort_ok {raw : String} {es : List (Event Net)}
    (hprivate : p.allowPrivateNetworks = false)
    (hrun : Runs (validateHostPort m.cases p raw host port) es (.ok ())) :
    host ≠ "" ∧ (port = 0 ∨ PortAllowed p port) := by
  unfold validateHostPort at hrun
  simp only [hprivate, Bool.false_eq_true, if_false] at hrun
  generalize metadataEndpoints.find? _ = endpoint at hrun
  by_cases hempty : host = ""
  · rw [if_pos hempty] at hrun
    cases (runs_pure.mp hrun).2
  rw [if_neg hempty] at hrun
  refine ⟨hempty, ?_⟩
  by_cases hallowed : p.allowedHosts ≠ []
  · exact Or.inr (Or.inl hallowed)
  rw [if_neg hallowed] at hrun
  cases endpoint with
  | some endpoint => cases (runs_pure.mp hrun).2
  | none =>
    simp only at hrun
    split_ifs at hrun with hinternal hport
    · cases (runs_pure.mp hrun).2
    · cases (runs_pure.mp hrun).2
    · by_cases hzero : port = 0
      · exact Or.inl hzero
      · exact Or.inr (Or.inr (by simpa [hzero] using hport))

theorem accepted_network (hprivate : p.allowPrivateNetworks = false) (h : Accepted m p target)
    (hlocal : looksLikeLocalPath (trimSpace target) = false) :
    checkedHost m target ≠ "" ∧
      ((hostAndPort m (trimSpace target)).2 = 0 ∨
        PortAllowed p (hostAndPort m (trimSpace target)).2) := by
  obtain ⟨es, hrun⟩ := h
  simp only [validateTarget, hlocal, Bool.false_eq_true, if_false] at hrun
  split_ifs at hrun with hempty hlong
  · cases (runs_pure.mp hrun).2
  · cases (runs_pure.mp hrun).2
  · exact validateHostPort_ok hprivate hrun

theorem accepted_ne_empty (h : Accepted m p target) : trimSpace target ≠ "" := by
  intro hempty
  obtain ⟨es, hrun⟩ := h
  simp only [validateTarget, if_pos hempty] at hrun
  cases (runs_pure.mp hrun).2

theorem expandLocal_none (h : looksLikeLocalPath (trimSpace target) = false) :
    expandLocal m (trimSpace target) = none := by
  rw [expandLocal, if_neg]
  intro hwritten
  rw [looksLikeLocalPath_of_written hwritten] at h
  cases h

/-- A network target is scanned where it was checked if it is read alike. -/
theorem checked_network (hprivate : p.allowPrivateNetworks = false) (h : Accepted m p target)
    (hlocal : looksLikeLocalPath (trimSpace target) = false) :
    (∀ t ∈ plainTargets m cls target scanType, Checked m p target t) ↔
      ReadAlike m (trimSpace target) := by
  have hexpand := expandLocal_none (m := m) hlocal
  have hopen : opened m target = none := by rw [opened, hexpand]; rfl
  have hraw := accepted_ne_empty h
  obtain ⟨hhost, hport⟩ := accepted_network hprivate h hlocal
  have hne := normalizeHost_of_checked hraw hhost
  rw [checked_plain hopen, normalizeTarget_not_opened hopen hraw, hexpand, Option.getD_none,
    readAlike_iff]
  dsimp only
  constructor
  · rintro (hempty | ⟨_, hsame, _⟩)
    · exact absurd hempty hne
    · exact hsame
  · intro hsame
    refine Or.inr ⟨hlocal, hsame, ?_⟩
    obtain hsame | hzero | hscheme | hscheme := readAlike_port (readAlike_iff.mpr hsame)
    · rw [hsame]
      exact hport
    · exact Or.inl hzero
    · rw [hscheme]
      exact Or.inr (Or.inr (by decide))
    · rw [hscheme]
      exact Or.inr (Or.inr (by decide))

theorem isAbs_join {home rest : String} (h : home ≠ "") : isAbs (join home rest) = isAbs home := by
  rw [join, if_pos h, isAbs_clean, isAbs_append h]

theorem isAbs_expandTilde {raw : String} (h : isAbs (expandUser m raw) = true) :
    isAbs (expandTilde m raw) = true := by
  unfold expandUser at h
  unfold expandTilde
  by_cases htilde : hasPrefix raw "~" = true
  · have hraw : isAbs raw = false := by
      obtain ⟨rest, hrest⟩ := of_decide_eq_true htilde
      rw [Bool.eq_false_iff, ne_eq, isAbs_toList, ← hrest]
      simp
    rw [if_pos htilde]
    rw [if_neg (by simp [htilde])] at h
    cases hhome : m.userHomeDir with
    | none =>
      simp only [hhome] at h
      exact h
    | some home =>
      have hne : home ≠ "" := fun hempty => m.userHomeDir_ne (hhome.trans (congrArg some hempty))
      simp only [hhome] at h
      simp only [isAbs_join hne]
      split_ifs at h
      · exact h
      · rwa [isAbs_join hne] at h
      · rw [hraw] at h
        cases h
  · rw [if_neg htilde]
    rwa [if_pos (by simpa using htilde)] at h

theorem abs_eq_some {wd : Option String} {a b b' : String} (h : abs wd a = some b)
    (habs : isAbs a = true → isAbs b' = true) : ∃ c, abs wd b' = some c := by
  unfold RivicQ.Lib.FilePaths.abs at h ⊢
  split_ifs at h with ha
  · rw [if_pos (habs ha)]
    exact ⟨_, rfl⟩
  · obtain ⟨w, rfl, _⟩ := Option.map_eq_some_iff.mp h
    split_ifs
    · exact ⟨_, rfl⟩
    · exact ⟨_, rfl⟩

/-- A local path is absolute, or begins as one of another system does. -/
theorem head_local (h : Accepted m p target)
    (hlocal : looksLikeLocalPath (trimSpace target) = true) :
    ∃ c, isBracket c = false ∧ c ≠ ':' ∧
      ((expandLocal m (trimSpace target)).getD (trimSpace target)).toList.head? = some c := by
  have hraw := accepted_local h hlocal
  unfold expandLocal
  split_ifs with hwritten
  · obtain ⟨_, checked, habs, _⟩ := validateLocalPath_ok hraw
    obtain ⟨path, hpath⟩ := abs_eq_some habs isAbs_expandTilde
    rw [hpath]
    exact ⟨'/', by decide, by decide, isAbs_toList.mp (isAbs_abs m.isAbs_getwd hpath)⟩
  · rw [looksLikeLocalPath_eq, Bool.eq_false_iff.mpr hwritten, Bool.false_or] at hlocal
    obtain ⟨rest, hrest⟩ := of_decide_eq_true hlocal
    refine ⟨'\\', by decide, by decide, ?_⟩
    rw [Option.getD_none, ← hrest]
    simp

/-- A local path has no host that was checked. -/
theorem checked_local (h : Accepted m p target)
    (hlocal : looksLikeLocalPath (trimSpace target) = true) :
    (∀ t ∈ plainTargets m cls target scanType, Checked m p target t) ↔
      (opened m target).isSome = true ∧ scanType ≠ "full" := by
  cases hopen : opened m target with
  | some path =>
    rw [checked_file hopen]
    simp [hlocal]
  | none =>
    rw [checked_plain hopen]
    have hne : (normalizeTarget m target).1 ≠ "" := by
      rw [normalizeTarget_not_opened hopen (accepted_ne_empty h)]
      obtain ⟨c, hbracket, hcolon, hhead⟩ := head_local h hlocal
      dsimp only
      exact normalizeHost_of_path hhead hbracket hcolon
    simp [hlocal, hne]

/-- The host of a pod is scanned as a website. -/
theorem checked_pod : (∀ t ∈ if text ≠ "" then plainTargets m .website text "website" else [],
      Checked m p target t) ↔
    text = "" ∨ (opened m text).isSome = true ∨ (normalizeTarget m text).1 = "" ∨
      (looksLikeLocalPath (trimSpace target) = false ∧
        (normalizeTarget m text).1 = checkedHost m target ∧
        ((normalizeTarget m text).2.1 = 0 ∨ PortAllowed p (normalizeTarget m text).2.1)) := by
  by_cases hempty : text = ""
  · simp [hempty]
  rw [if_pos hempty]
  cases hopen : opened m text with
  | some path =>
    rw [checked_file hopen]
    simp [hempty]
  | none =>
    rw [checked_plain hopen]
    simp [hempty]

/-- Every host that an accepted target has scanned is the one that was checked, exactly
if the target is read alike by the check and by the scanner. -/
theorem hosts_checked (hprivate : p.allowPrivateNetworks = false) (h : Accepted m p target) :
    (∀ t ∈ buildTargets m target scanType, Checked m p target t) ↔
      Settled m p target scanType := by
  have hplain : ∀ cls, (∀ t ∈ plainTargets m cls target scanType, Checked m p target t) ↔
      if looksLikeLocalPath (trimSpace target) then
        (opened m target).isSome = true ∧ scanType ≠ "full"
      else ReadAlike m (trimSpace target) := by
    intro cls
    split_ifs with hlocal
    · exact checked_local h hlocal
    · exact checked_network hprivate h (Bool.eq_false_iff.mpr hlocal)
  unfold Settled buildTargets
  cases classifyTarget m target scanType with
  | hardware => simp [Checked, Network]
  | firmware => simp [Checked, Network]
  | pod =>
    simp only [List.forall_mem_cons]
    rw [and_iff_right (by simp [Checked, Network]), checked_pod]
    rfl
  | website => exact hplain _
  | host => exact hplain _
  | ip => exact hplain _
  | server => exact hplain _
  | path => exact hplain _

/-- The restrictive policy. -/
def guarded : TargetPolicy where
  allowLocalPaths := false
  localPathRoots := []
  allowPrivateNetworks := false
  allowedHosts := []

/-- A host with a port is scanned as it was checked. -/
theorem hosts_checked_port : Accepted workstation guarded "example.org:8443" ∧
    ∀ t ∈ buildTargets workstation "example.org:8443" "full",
      Checked workstation guarded "example.org:8443" t := by
  have haccepted : Accepted workstation guarded "example.org:8443" :=
    accepted_unanswered (by decide)
  refine ⟨haccepted, (hosts_checked rfl haccepted).mpr ?_⟩
  have hclass : classifyTarget workstation "example.org:8443" "full" = .host := by decide
  have hraw : trimSpace "example.org:8443" = "example.org:8443" := by decide
  have hlocal : looksLikeLocalPath "example.org:8443" = false := by decide
  have hurl : contains "example.org:8443" "://" = false := by decide
  have hsplit : splitHostPort "example.org:8443" = some ("example.org", "8443") := by decide
  have hip : isIPHost "example.org:8443" = false := by decide
  have hatoi : (atoi "8443").2 = true := by decide
  simp only [Settled, hclass, hraw, hlocal, ReadAlike, urlOf, hurl, Bool.false_eq_true, if_false,
    Option.filter_none, hsplit]
  exact ⟨hip, hatoi⟩

/-- A machine that parses the reference of a pod. -/
def cluster : Machine :=
  { bare with
    parseURL := fun s =>
      if s = "pod://ns/app@10.0.0.5" then some { scheme := "pod", host := "ns" } else none }

/-- The namespace of a pod is checked, and the address behind it is scanned. -/
theorem pod_redirects : ¬ ∀ (m : Machine) (p : TargetPolicy) (target scanType : String),
    p.allowPrivateNetworks = false → Accepted m p target →
      ∀ t ∈ buildTargets m target scanType, Checked m p target t := by
  intro h
  have haccepted : Accepted cluster guarded "pod://ns/app@10.0.0.5" :=
    accepted_unanswered (by decide)
  have hscanned : (buildTargets cluster "pod://ns/app@10.0.0.5" "full").any
      (fun t => t.protocol = "tls" && t.host = "10.0.0.5") = true := by
    decide
  have hchecked : checkedHost cluster "pod://ns/app@10.0.0.5" = "ns" := by decide
  obtain ⟨t, ht, hfound⟩ := List.any_eq_true.mp hscanned
  simp only [Bool.and_eq_true, decide_eq_true_eq] at hfound
  obtain ⟨_, hhost, _⟩ := h cluster guarded _ "full" rfl haccepted t ht (Or.inl hfound.1)
  rw [hfound.2, hchecked] at hhost
  exact absurd hhost (by decide)

end RivicQ.Properties.Endpoints
