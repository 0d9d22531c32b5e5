import RivicQ.Discovery.Scans
import RivicQ.Properties.Endpoints

namespace RivicQ.Properties.DialStrings

open RivicQ.Lib.GoStrings RivicQ.Lib.HostPorts RivicQ.Lib.URLs
open RivicQ.Discovery.Network RivicQ.Discovery.Policies RivicQ.Discovery.LocalPaths
open RivicQ.Discovery.Targets RivicQ.Discovery.Scanners
open RivicQ.Properties.Confinement RivicQ.Properties.Endpoints

/-- The text of a URL at an endpoint, with the query of the HTTP scanner. -/
def endpointURL (scheme host : String) (port : Int) : String :=
  scheme ++ "://" ++ host ++ ":" ++ toString port ++ "/?data=test"

def httpPort (m : Machine) (target : Target) : Int :=
  if target.port = 0 then (if httpScheme m target = "https" then 443 else 80) else target.port

def requestURL (m : Machine) (target : Target) : String :=
  endpointURL (httpScheme m target) target.host (httpPort m target)

/-- The port of a scheme, where a URL names none. -/
def portMap (scheme : String) : String :=
  if scheme = "http" then "80" else if scheme = "https" then "443" else ""

def isASCII (s : String) : Bool := s.toList.all fun c => c.toNat < 128

section Transport

variable (toASCII : String → Option String)

/-- A host name as a transport dials it: one of other letters is looked up. -/
def idnaASCII (host : String) : String :=
  if isASCII host then host else (toASCII host).getD host

/-- The address that a transport dials for a URL. -/
def canonicalAddr (u : URL) : String :=
  joinHostPort (idnaASCII toASCII u.hostname) (if u.port = "" then portMap u.scheme else u.port)

/-- The address that the scanner of a target has dialled, if it gets so far. -/
def dialString (m : Machine) (t : Target) : Option String :=
  if t.protocol = "http" then (m.parseURL (requestURL m t)).map (canonicalAddr toASCII)
  else some (targetAddr t)

/-- The address is split into the host and the port of the target. -/
def SplitsBack (m : Machine) (t : Target) : Prop :=
  (dialString toASCII m t).bind splitHostPort = some (t.host, toString t.port)

end Transport

/-- A host without the signs that set off a port. -/
def Bare (host : String) : Prop := ':' ∉ host.toList ∧ Plain host

/-- The characters that stand in the host of a URL as they are. -/
def hostChar (c : Char) : Bool :=
  128 ≤ c.toNat || c.isAlphanum || "-_.~!$&'()*+,;=<>\"".toList.contains c

def HostText (host : String) : Prop := host.toList.all hostChar = true

/-- What the URL parser does with an endpoint: a host of fit characters is read as it
is written, no brackets come into a host, and a host that is read so is fit. -/
structure ReadsEndpoints (parseURL : String → Option URL) : Prop where
  reads : ∀ {scheme host : String} {port : Int}, scheme = "http" ∨ scheme = "https" →
    HostText host → 0 ≤ port →
    parseURL (endpointURL scheme host port) =
      some { scheme := scheme, host := host ++ ":" ++ toString port }
  plain : ∀ {scheme host : String} {port : Int} {u : URL}, Bare host →
    parseURL (endpointURL scheme host port) = some u → Plain u.hostname
  chars : ∀ {scheme host : String} {port : Int} {u : URL}, Bare host →
    parseURL (endpointURL scheme host port) = some u → u.hostname = host → HostText host

/-- Looked up names have letters, digits, hyphens and dots. -/
def Registered (toASCII : String → Option String) : Prop :=
  ∀ host name, toASCII host = some name →
    name.toList.all (fun c => c.isAlphanum || c = '-' || c = '.') = true

section Ports

variable {s : String} {n : Int}

theorem digits_natCast (n : Nat) : (toString (n : Int)).toList.all Char.isDigit = true := by
  rw [List.all_eq_true]
  intro c hc
  have htext : toString (n : Int) = toString n := rfl
  rw [htext, Nat.toString_eq_ofList_toDigits, String.toList_ofList] at hc
  exact Nat.isDigit_of_mem_toDigits (by omega) (by omega) hc

theorem toList_negSucc (n : Nat) :
    (toString (Int.negSucc n)).toList = '-' :: (toString (n + 1)).toList := by
  have htext : toString (Int.negSucc n) = "-" ++ toString (n + 1) := rfl
  rw [htext, String.toList_append]
  rfl

/-- A port has digits only, exactly if it is not negative. -/
theorem digits_port : (toString n).toList.all Char.isDigit = true ↔ 0 ≤ n := by
  cases n with
  | ofNat n => exact iff_of_true (digits_natCast n) (Int.natCast_nonneg n)
  | negSucc n =>
    refine iff_of_false (fun hall => ?_) (by omega)
    rw [toList_negSucc] at hall
    cases hall

theorem bare_digits (h : s.toList.all Char.isDigit = true) : Plain s ∧ ':' ∉ s.toList := by
  rw [List.all_eq_true] at h
  refine ⟨⟨fun hc => ?_, fun hc => ?_⟩, fun hc => ?_⟩
  all_goals cases h _ hc

theorem bare_port : Plain (toString n) ∧ ':' ∉ (toString n).toList := by
  cases n with
  | ofNat n => exact bare_digits (digits_natCast n)
  | negSucc n =>
    obtain ⟨⟨hopen, hclose⟩, hcolon⟩ := bare_digits (digits_natCast (n + 1))
    rw [Plain, toList_negSucc]
    refine ⟨⟨?_, ?_⟩, ?_⟩
    · exact List.not_mem_cons_of_ne_of_not_mem (by decide) hopen
    · exact List.not_mem_cons_of_ne_of_not_mem (by decide) hclose
    · exact List.not_mem_cons_of_ne_of_not_mem (by decide) hcolon

theorem port_digits (u : URL) : u.port.toList.all Char.isDigit = true := by
  by_cases hport : u.port = ""
  · rw [hport]
    rfl
  · obtain ⟨_, _, hdigits, _⟩ := URL.hostPort_of_port hport
    exact hdigits

theorem portMap_digits (scheme : String) : (portMap scheme).toList.all Char.isDigit = true := by
  unfold portMap
  split_ifs <;> decide

end Ports

section Hosts

variable {s host port : String} {n : Int}

/-- An address in two parts is split back exactly if its host is bare. -/
theorem split_iff (hport : Plain port ∧ ':' ∉ port.toList) :
    splitHostPort (host ++ ":" ++ port) = some (host, port) ↔ Bare host := by
  have htext : (host ++ ":" ++ port).toList = host.toList ++ ':' :: port.toList := by simp
  constructor
  · intro h
    obtain ⟨hbracket | ⟨_, hcolon⟩, hplain, _⟩ := splitHostPort_cases h
    · have hlength := congrArg List.length (htext.symm.trans hbracket)
      simp only [List.length_append, List.length_cons] at hlength
      omega
    · exact ⟨hcolon, hplain⟩
  · rintro ⟨hcolon, hplain⟩
    exact splitHostPort_append hplain hport.1 hcolon hport.2 htext

theorem hostText_not_mem {c : Char} (hc : hostChar c = false) (h : HostText host) :
    c ∉ host.toList := by
  intro hmem
  rw [List.all_eq_true.mp h c hmem] at hc
  cases hc

theorem bare_of_hostText (h : HostText host) : Bare host :=
  ⟨hostText_not_mem (by decide) h, hostText_not_mem (by decide) h, hostText_not_mem (by decide) h⟩

theorem hostText_name (h : s.toList.all (fun c => c.isAlphanum || c = '-' || c = '.') = true) :
    HostText s := by
  have hhyphen : hostChar '-' = true := by decide
  have hdot : hostChar '.' = true := by decide
  rw [HostText, List.all_eq_true]
  intro c hc
  have hname := List.all_eq_true.mp h c hc
  simp only [Bool.or_eq_true, decide_eq_true_eq] at hname
  obtain (halnum | rfl) | rfl := hname
  · simp [hostChar, halnum]
  · exact hhyphen
  · exact hdot

theorem endpoint_url {scheme : String} (hhost : HostText host) (hn : 0 ≤ n) :
    ({ scheme := scheme, host := host ++ ":" ++ toString n } : URL).hostname = host ∧
      ({ scheme := scheme, host := host ++ ":" ++ toString n } : URL).port = toString n := by
  have hsplit := (split_iff (bare_port (n := n))).mpr (bare_of_hostText hhost)
  have hvalid : validOptionalPort (':' :: (toString n).toList) = true := by
    rw [validOptionalPort, digits_port.mpr hn]
    rfl
  exact URL.hostPort_valid (u := { scheme := scheme, host := _ }) hsplit hvalid

end Hosts

section Scanned

variable {toASCII : String → Option String} {m : Machine} {p : TargetPolicy}

theorem httpScheme_cases (t : Target) : httpScheme m t = "http" ∨ httpScheme m t = "https" := by
  unfold httpScheme
  simp only
  split_ifs with hscheme
  · simpa using hscheme
  · exact Or.inr rfl
  · exact Or.inl rfl

theorem splitsBack_addr {t : Target} (h : t.protocol ≠ "http") :
    SplitsBack toASCII m t ↔ Bare t.host := by
  rw [SplitsBack, dialString, if_neg h, Option.bind_some]
  exact split_iff bare_port

theorem plain_idnaASCII {host : String} (hnames : Registered toASCII) (h : Plain host) :
    Plain (idnaASCII toASCII host) := by
  unfold idnaASCII
  split_ifs
  · exact h
  · cases hname : toASCII host with
    | none => exact h
    | some name => exact (bare_of_hostText (hostText_name (hnames host name hname))).2

/-- A host that the transport makes of a name is that name or is registered. -/
theorem idnaASCII_cases {host name : String} (hnames : Registered toASCII)
    (h : idnaASCII toASCII name = host) : name = host ∨ HostText host := by
  unfold idnaASCII at h
  split_ifs at h
  · exact Or.inl h
  · cases hname : toASCII name with
    | none =>
      rw [hname] at h
      exact Or.inl h
    | some found =>
      rw [hname] at h
      obtain rfl : found = host := h
      exact Or.inr (hostText_name (hnames name found hname))

theorem canonicalAddr_endpoint {scheme host : String} {n : Int} (hhost : HostText host)
    (hn : 0 ≤ n) : canonicalAddr toASCII { scheme := scheme, host := host ++ ":" ++ toString n } =
      joinHostPort (idnaASCII toASCII host) (toString n) := by
  obtain ⟨hname, hport⟩ := @endpoint_url host n scheme hhost hn
  have hne : toString n ≠ "" := by
    cases n with
    | ofNat n =>
      have htext : toString (Int.ofNat n) = toString n := rfl
      rw [htext]
      simp
    | negSucc n => omega
  rw [canonicalAddr, hname, hport, if_neg hne]

/-- The transport dials a bare host as it is exactly if a URL takes all its characters,
no other name is looked up for it, and the port is no negative number. -/
theorem splitsBack_http (hread : ReadsEndpoints m.parseURL) (hnames : Registered toASCII)
    {t : Target} (hprotocol : t.protocol = "http") (hport : t.port ≠ 0) (hbare : Bare t.host) :
    SplitsBack toASCII m t ↔
      HostText t.host ∧ idnaASCII toASCII t.host = t.host ∧ 0 ≤ t.port := by
  have hrequest : requestURL m t = endpointURL (httpScheme m t) t.host t.port := by
    rw [requestURL, httpPort, if_neg hport]
  rw [SplitsBack, dialString, if_pos hprotocol, hrequest]
  constructor
  · intro h
    cases hu : m.parseURL (endpointURL (httpScheme m t) t.host t.port) with
    | none =>
      rw [hu] at h
      cases h
    | some u =>
      rw [hu, Option.map_some, Option.bind_some, canonicalAddr] at h
      have hname := plain_idnaASCII hnames (hread.plain hbare hu)
      have hdigits : (if u.port = "" then portMap u.scheme else u.port).toList.all Char.isDigit =
          true := by
        split_ifs
        · exact portMap_digits u.scheme
        · exact port_digits u
      obtain ⟨hplain, hcolon⟩ := bare_digits hdigits
      rw [splitHostPort_joinHostPort hname hplain hcolon] at h
      obtain ⟨hhost, htext⟩ := Prod.mk.inj (Option.some.inj h)
      rw [htext, digits_port] at hdigits
      have hfit : HostText t.host := by
        obtain hsame | hfit := idnaASCII_cases hnames hhost
        · exact hread.chars hbare hu hsame
        · exact hfit
      rw [hread.reads (httpScheme_cases t) hfit hdigits] at hu
      obtain rfl := Option.some.inj hu
      rw [(endpoint_url hfit hdigits).1] at hhost
      exact ⟨hfit, hhost, hdigits⟩
  · rintro ⟨hfit, hname, hn⟩
    rw [hread.reads (httpScheme_cases t) hfit hn, Option.map_some, Option.bind_some,
      canonicalAddr_endpoint hfit hn, hname]
    exact splitHostPort_joinHostPort hbare.2 bare_port.1 bare_port.2

end Scanned

section Targets

variable (toASCII : String → Option String) (m : Machine) (cls : TargetClass)
  (target scanType host : String) (port : Int) (website : Bool)

/-- A host that every scanner of it dials as it is. -/
def HostDials : Prop :=
  Bare host ∧ (includeHTTP m scanType website = true →
    HostText host ∧ idnaASCII toASCII host = host ∧ (website = true → 0 ≤ port))

/-- The host that a target is read as, where it is no file, is dialled as it is. -/
def TargetDials : Prop :=
  opened m target = none → (normalizeTarget m target).1 ≠ "" →
    HostDials toASCII m scanType (normalizeTarget m target).1 (normalizeTarget m target).2.1
      (cls = .website || isWebsiteTarget m target scanType)

/-- The host of a scan is dialled as it is: of a pod, the host behind its reference. -/
def ScanDials : Prop :=
  match classifyTarget m target scanType with
  | .hardware => True
  | .firmware => True
  | .pod =>
    let host := (parsePodTarget m target).host
    host ≠ "" → TargetDials toASCII m .website host "website"
  | cls => TargetDials toASCII m cls target scanType

/-- Every network scan of a work list dials an address that is split back. -/
def AllSplitBack (targets : List Target) : Prop :=
  ∀ t ∈ targets, Network t → SplitsBack toASCII m t

variable {toASCII m cls target scanType host port website} {scheme path : String} {n : Nat}

theorem splitsBack_httpTarget (hread : ReadsEndpoints m.parseURL) (hnames : Registered toASCII)
    (hport : port ≠ 0) (hbare : Bare host) :
    SplitsBack toASCII m (httpTarget m cls target host scheme port website n) ↔
      HostText host ∧ idnaASCII toASCII host = host ∧ (website = true → 0 ≤ port) := by
  have hne : (httpTarget m cls target host scheme port website n).port ≠ 0 := by
    cases website with
    | true => exact hport
    | false => exact (by decide : (80 : Int) ≠ 0)
  have hn : 0 ≤ (httpTarget m cls target host scheme port website n).port ↔
      (website = true → 0 ≤ port) := by
    cases website with
    | true => exact ⟨fun h _ => h, fun h => h rfl⟩
    | false => exact iff_of_true (by decide : (0 : Int) ≤ 80) fun h => nomatch h
  rw [splitsBack_http hread hnames rfl hne hbare, hn]
  rfl

theorem splitBack_cons {t : Target} {ts : List Target} : AllSplitBack toASCII m (t :: ts) ↔
    (Network t → SplitsBack toASCII m t) ∧ AllSplitBack toASCII m ts := List.forall_mem_cons

theorem splitBack_append {ts ts' : List Target} : AllSplitBack toASCII m (ts ++ ts') ↔
    AllSplitBack toASCII m ts ∧ AllSplitBack toASCII m ts' := List.forall_mem_append

theorem splitBack_if {t : Target} {c : Bool} : AllSplitBack toASCII m (if c then [t] else []) ↔
    (c = true → Network t → SplitsBack toASCII m t) := by
  cases c with
  | true => simp [AllSplitBack]
  | false => simp [AllSplitBack]

/-- The scans of a host all dial it as it is if the host allows for it. -/
theorem splitBack_hosts (hread : ReadsEndpoints m.parseURL) (hnames : Registered toASCII)
    (hport : port ≠ 0) :
    AllSplitBack toASCII m (hostTargets m cls target scanType host scheme port website n) ↔
      HostDials toASCII m scanType host port website := by
  have htls : ∀ k, SplitsBack toASCII m (tlsTarget cls target host scheme port website k) ↔
      Bare host := fun k => splitsBack_addr (by simp [tlsTarget])
  have hssh : ∀ k, SplitsBack toASCII m (sshTarget cls target host k) ↔ Bare host :=
    fun k => splitsBack_addr (by simp [sshTarget])
  simp only [hostTargets]
  rw [splitBack_cons, splitBack_append, splitBack_if, splitBack_if, htls, hssh]
  constructor
  · rintro ⟨hbare, _, hhttp⟩
    have hbare := hbare (Or.inl rfl)
    exact ⟨hbare, fun h => (splitsBack_httpTarget hread hnames hport hbare).mp
      (hhttp h (Or.inr (Or.inr rfl)))⟩
  · rintro ⟨hbare, hfit⟩
    exact ⟨fun _ => hbare, fun _ _ => hbare, fun h _ =>
      (splitsBack_httpTarget hread hnames hport hbare).mpr (hfit h)⟩

theorem splitBack_localhost (hread : ReadsEndpoints m.parseURL) (hnames : Registered toASCII) :
    AllSplitBack toASCII m
      (hostTargets m cls target scanType "localhost" "http" 80 false n) := by
  have hfit : HostText "localhost" := by
    rw [HostText]
    decide
  have hname : idnaASCII toASCII "localhost" = "localhost" := if_pos (by decide)
  rw [splitBack_hosts hread hnames (by decide)]
  exact ⟨bare_of_hostText hfit, fun _ => ⟨hfit, hname, fun h => nomatch h⟩⟩

theorem splitBack_sbom : AllSplitBack toASCII m [sbomTarget target path] := by
  intro t ht hnetwork
  obtain rfl := List.mem_singleton.mp ht
  exact absurd hnetwork (by simp [Network, sbomTarget])

theorem splitBack_file (hread : ReadsEndpoints m.parseURL) (hnames : Registered toASCII)
    (h : opened m target = some path) :
    AllSplitBack toASCII m (plainTargets m cls target scanType) := by
  rw [plainTargets_opened h]
  split_ifs
  · exact splitBack_sbom
  · intro t ht hnetwork
    obtain ht | ht := List.mem_cons.mp ht
    · exact splitBack_sbom t (List.mem_singleton.mpr ht) hnetwork
    · exact splitBack_localhost hread hnames t ht hnetwork

theorem defaultPort_ne : defaultPort scheme port ≠ 0 := by
  unfold defaultPort
  split_ifs with hzero
  · decide
  · decide
  · exact hzero

theorem defaultPort_nonneg : 0 ≤ defaultPort scheme port ↔ 0 ≤ port := by
  unfold defaultPort
  split_ifs with hzero
  · exact iff_of_true (by decide) (by omega)
  · exact iff_of_true (by decide) (by omega)
  · rfl

theorem hostDials_defaultPort :
    HostDials toASCII m scanType host (defaultPort scheme port) website ↔
      HostDials toASCII m scanType host port website := by
  rw [HostDials, HostDials, defaultPort_nonneg]

/-- What is no file is scanned at its host, over HTTP as a website if it is one. -/
theorem plainTargets_host (cls : TargetClass) (scanType : String) (h : opened m target = none) :
    ∃ scheme, plainTargets m cls target scanType =
      if (normalizeTarget m target).1 = "" then []
      else hostTargets m cls target scanType (normalizeTarget m target).1 scheme
        (defaultPort scheme (normalizeTarget m target).2.1)
        (cls = .website || isWebsiteTarget m target scanType) 1 := by
  simp only [plainTargets, normalizeTarget_path h, ne_eq, not_true, decide_false, Bool.false_and,
    Bool.false_eq_true, if_false]
  exact ⟨_, rfl⟩

theorem targetDials_file (h : opened m target = some path) :
    TargetDials toASCII m cls target scanType := by
  rw [TargetDials, h]
  intro hnone
  cases hnone

theorem targetDials_nowhere (h : (normalizeTarget m target).1 = "") :
    TargetDials toASCII m cls target scanType := by
  rw [TargetDials]
  intro _ hne
  exact absurd h hne

theorem targetDials_host (hopen : opened m target = none) (h : (normalizeTarget m target).1 ≠ "") :
    TargetDials toASCII m cls target scanType ↔
      HostDials toASCII m scanType (normalizeTarget m target).1 (normalizeTarget m target).2.1
        (cls = .website || isWebsiteTarget m target scanType) := by
  rw [TargetDials]
  exact ⟨fun hdials => hdials hopen h, fun hdials _ _ => hdials⟩

theorem splitBack_nil : AllSplitBack toASCII m [] := List.forall_mem_nil _

theorem splitBack_plain (hread : ReadsEndpoints m.parseURL) (hnames : Registered toASCII) :
    AllSplitBack toASCII m (plainTargets m cls target scanType) ↔
      TargetDials toASCII m cls target scanType := by
  cases hopen : opened m target with
  | some path =>
    exact iff_of_true (splitBack_file hread hnames hopen) (targetDials_file hopen)
  | none =>
    obtain ⟨scheme, heq⟩ := plainTargets_host cls scanType hopen
    rw [heq]
    split_ifs with hempty
    · exact iff_of_true splitBack_nil (targetDials_nowhere hempty)
    · rw [splitBack_hosts hread hnames defaultPort_ne, hostDials_defaultPort,
        targetDials_host hopen hempty]

/-- Every address that the scanners of a target dial is split back into host and port,
exactly if the host that is scanned can be dialled as it is. -/
theorem dial_strings_iff (hread : ReadsEndpoints m.parseURL) (hnames : Registered toASCII) :
    AllSplitBack toASCII m (buildTargets m target scanType) ↔
      ScanDials toASCII m target scanType := by
  have hplain : ∀ cls text kind, AllSplitBack toASCII m (plainTargets m cls text kind) ↔
      TargetDials toASCII m cls text kind := fun _ _ _ => splitBack_plain hread hnames
  unfold ScanDials buildTargets
  cases classifyTarget m target scanType with
  | hardware => simp [AllSplitBack, Network]
  | firmware => simp [AllSplitBack, Network]
  | pod =>
    simp only [AllSplitBack, List.forall_mem_cons]
    rw [and_iff_right (by simp [Network])]
    split_ifs with hhost
    · rw [← hplain]
      exact ⟨fun h _ => h, fun h => h hhost⟩
    · exact iff_of_true splitBack_nil fun hne => absurd hne hhost
  | website => exact hplain _ _ _
  | host => exact hplain _ _ _
  | ip => exact hplain _ _ _
  | server => exact hplain _ _ _
  | path => exact hplain _ _ _

end Targets

section Reader

/-- The text behind the scheme of an endpoint. -/
def schemeCut (raw : String) : Option (String × List Char) :=
  if hasPrefix raw "http://" then some ("http", raw.toList.drop 7)
  else if hasPrefix raw "https://" then some ("https", raw.toList.drop 8)
  else none

def readAuthority (scheme : String) (authority : List Char) : Option URL :=
  match cutLast authority ':' with
  | none => none
  | some (host, port) =>
    if host.all hostChar && port.all Char.isDigit then
      some { scheme := scheme, host := String.ofList authority }
    else none

/-- A parser of endpoints, which takes fit characters only. -/
def readEndpoint (raw : String) : Option URL :=
  match schemeCut raw with
  | none => none
  | some (scheme, rest) => readAuthority scheme (rest.takeWhile (· != '/'))

variable {raw scheme host : String} {port : Int} {u : URL} {authority : List Char}

theorem readAuthority_hostname (h : readAuthority scheme authority = some u) :
    HostText u.hostname := by
  unfold readAuthority at h
  cases hcut : cutLast authority ':' with
  | none =>
    simp only [hcut] at h
    cases h
  | some parts =>
    obtain ⟨host, digits⟩ := parts
    simp only [hcut] at h
    split_ifs at h with hfit
    obtain ⟨hhost, hdigits⟩ := Bool.and_eq_true_iff.mp hfit
    obtain rfl := Option.some.inj h
    have htext : HostText (String.ofList host) := by
      rw [HostText, String.toList_ofList]
      exact hhost
    have hport : (String.ofList digits).toList.all Char.isDigit = true := by
      rw [String.toList_ofList]
      exact hdigits
    have hauthority : String.ofList authority =
        String.ofList host ++ ":" ++ String.ofList digits := by
      apply String.toList_inj.mp
      rw [(cutLast_eq hcut).1]
      simp
    have hsplit : splitHostPort (String.ofList authority) =
        some (String.ofList host, String.ofList digits) := by
      rw [hauthority]
      exact (split_iff (bare_digits hport)).mpr (bare_of_hostText htext)
    have hvalid : validOptionalPort (':' :: (String.ofList digits).toList) = true := by
      rw [validOptionalPort, hport]
      rfl
    rw [(URL.hostPort_valid (u := { scheme := scheme, host := String.ofList authority }) hsplit
      hvalid).1]
    exact htext

theorem readEndpoint_hostname (h : readEndpoint raw = some u) : HostText u.hostname := by
  unfold readEndpoint at h
  cases hcut : schemeCut raw with
  | none =>
    simp only [hcut] at h
    cases h
  | some parts =>
    simp only [hcut] at h
    exact readAuthority_hostname h

theorem schemeCut_endpoint (hscheme : scheme = "http" ∨ scheme = "https") :
    schemeCut (endpointURL scheme host port) =
      some (scheme, host.toList ++ ':' :: (toString port).toList ++ "/?data=test".toList) := by
  have htext : (endpointURL scheme host port).toList = scheme.toList ++ "://".toList ++
      (host.toList ++ ':' :: (toString port).toList ++ "/?data=test".toList) := by
    simp [endpointURL]
  obtain rfl | rfl := hscheme
  · have hhttp : hasPrefix (endpointURL "http" host port) "http://" = true := by
      simp [hasPrefix, htext]
    rw [schemeCut, if_pos hhttp, htext]
    rfl
  · have hhttp : hasPrefix (endpointURL "https" host port) "http://" = false := by
      simp [hasPrefix, htext]
    have hhttps : hasPrefix (endpointURL "https" host port) "https://" = true := by
      simp [hasPrefix, htext]
    rw [schemeCut, hhttp, if_neg (by decide), if_pos hhttps, htext]
    rfl

theorem readEndpoint_endpoint (hscheme : scheme = "http" ∨ scheme = "https")
    (hhost : HostText host) (hport : 0 ≤ port) :
    readEndpoint (endpointURL scheme host port) =
      some { scheme := scheme, host := host ++ ":" ++ toString port } := by
  have hdigits := digits_port.mpr hport
  have hslash : ∀ c ∈ host.toList ++ ':' :: (toString port).toList, (c != '/') = true := by
    intro c hc
    rw [bne_iff_ne]
    rintro rfl
    obtain hc | hc := List.mem_append.mp hc
    · exact hostText_not_mem (by decide) hhost hc
    · obtain hc | hc := List.mem_cons.mp hc
      · exact absurd hc (by decide)
      · exact absurd (List.all_eq_true.mp hdigits '/' hc) (by decide)
  have hauthority : (host.toList ++ ':' :: (toString port).toList ++
      "/?data=test".toList).takeWhile (· != '/') =
        host.toList ++ ':' :: (toString port).toList := by
    rw [List.takeWhile_append_of_pos hslash]
    simp
  have hurl : String.ofList (host.toList ++ ':' :: (toString port).toList) =
      host ++ ":" ++ toString port := by
    apply String.toList_inj.mp
    simp
  have hfit : (host.toList.all hostChar && (toString port).toList.all Char.isDigit) = true :=
    Bool.and_eq_true_iff.mpr ⟨hhost, hdigits⟩
  simp only [readEndpoint, schemeCut_endpoint hscheme, hauthority, readAuthority,
    cutLast_append bare_port.2, if_pos hfit, hurl]

theorem readsEndpoints_reader : ReadsEndpoints readEndpoint where
  reads hscheme hhost hport := readEndpoint_endpoint hscheme hhost hport
  plain _ h := (bare_of_hostText (readEndpoint_hostname h)).2
  chars _ h hname := hname ▸ readEndpoint_hostname h

/-- A machine that parses endpoints. -/
def reader : Machine := { bare with parseURL := readEndpoint }

/-- No name is looked up. -/
def unlisted (_ : String) : Option String := none

theorem registered_unlisted : Registered unlisted := fun _ _ h => nomatch h

end Reader

/-- A host with a port is dialled as it is. -/
theorem dial_strings_port :
    AllSplitBack unlisted reader (buildTargets reader "example.org:8443" "full") := by
  apply (dial_strings_iff readsEndpoints_reader registered_unlisted).mpr
  have hclass : classifyTarget reader "example.org:8443" "full" = .host := by decide
  have hhost : (normalizeTarget reader "example.org:8443").1 = "example.org" := by decide
  have hport : (normalizeTarget reader "example.org:8443").2.1 = 8443 := by decide
  have hfit : HostText "example.org" := by
    rw [HostText]
    decide
  have hname : idnaASCII unlisted "example.org" = "example.org" := if_pos (by decide)
  simp only [ScanDials, hclass, TargetDials, HostDials, hhost, hport]
  exact fun _ _ => ⟨bare_of_hostText hfit, fun _ => ⟨hfit, hname, fun _ => by decide⟩⟩

/-- An address of the newer kind is dialled without brackets. -/
theorem dialled_unbracketed : ¬ ∀ (m : Machine) (toASCII : String → Option String)
    (p : TargetPolicy) (target scanType : String), ReadsEndpoints m.parseURL → Registered toASCII →
      Accepted m p target → AllSplitBack toASCII m (buildTargets m target scanType) := by
  intro h
  have haccepted : Accepted reader guarded "2600::1" :=
    accepted_unanswered (by decide)
  have hscanned : (buildTargets reader "2600::1" "full").any
      (fun t => t.protocol = "tls" && t.host.toList.contains ':') = true := by
    decide
  obtain ⟨t, ht, hfound⟩ := List.any_eq_true.mp hscanned
  simp only [Bool.and_eq_true, decide_eq_true_eq, List.contains_iff_mem] at hfound
  obtain ⟨htls, hcolon⟩ := hfound
  have hsplit := h reader unlisted guarded _ "full" readsEndpoints_reader registered_unlisted
    haccepted t ht (Or.inl htls)
  rw [splitsBack_addr (by simp [htls])] at hsplit
  exact hsplit.1 hcolon

end RivicQ.Properties.DialStrings
