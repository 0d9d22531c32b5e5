import RivicQ.Properties.DialStrings

namespace RivicQ.Properties.Redirects

open RivicQ.Lib.GoStrings RivicQ.Lib.HostPorts RivicQ.Lib.URLs RivicQ.Lib.Addresses
open RivicQ.Lib.Programs RivicQ.Lib.Traces
open RivicQ.Discovery.Network RivicQ.Discovery.Policies RivicQ.Discovery.SafeDial
open RivicQ.Discovery.LocalPaths RivicQ.Discovery.Validation RivicQ.Discovery.Scanners
open RivicQ.Properties.Confinement RivicQ.Properties.Endpoints RivicQ.Properties.DialStrings

/-- Where a URL leads: its host name, and the address a transport dials for it. -/
def hopOf (toASCII : String → Option String) (u : URL) : Hop :=
  { hostname := u.hostname, addr := canonicalAddr toASCII u }

/-- The port of a URL, or that of its scheme. -/
def effectivePort (u : URL) : Int :=
  (atoi (if u.port = "" then portMap u.scheme else u.port)).1

variable (toASCII : String → Option String) (m : Machine) (p : TargetPolicy)

/-- The policy accepts the host and the port of a URL, on the answers in a trace. -/
def Validates (u : URL) (check : List (Event Net)) : Prop :=
  Runs (validateHostPort m.cases p u.host u.hostname (effectivePort u)) check (.ok ())

/-- A request behind the first one is for a URL that the policy accepts, on the answers
that came right before it. -/
def Respects (before : List (Event Net)) (e : Event Net) : Prop :=
  before ≠ [] → ∀ u, e.op = .connections (hopOf toASCII u) →
    ∃ earlier check, before = earlier ++ check ∧ Validates m p u check

/-- A redirect to a URL is followed. -/
def Followed (es : List (Event Net)) (u : URL) : Prop :=
  ∃ before e after, es = before ++ e :: after ∧ before ≠ [] ∧
    e.op = .connections (hopOf toASCII u)

/-- A host name that the validation of a target takes for a host, and as it is. -/
def ReadsBack (host : String) : Prop :=
  looksLikeLocalPath (trimSpace host) = false ∧ hostAndPort m (trimSpace host) = (host, 0)

/-- A port that the policy accepts at any host. -/
def PortPermitted (port : Int) : Prop :=
  p.allowedHosts ≠ [] ∨ p.allowPrivateNetworks = true ∨ port = 0 ∨ isCommonScanPort port = true

variable {toASCII m p} {cm : CaseMap} {hop : Hop} {n : Nat} {es : List (Event Net)}

section Inner

/-- No request is begun. -/
def Inner (_ : List (Event Net)) (e : Event Net) : Prop := ∀ hop, e.op ≠ .connections hop

theorem inner_lasting : Lasting Inner := fun _ _ _ h => h

theorem inner_dial {network addr : String} : Always Inner (dial network addr) := by
  refine always_request inner_lasting (fun _ _ h => nomatch h) fun reply => ?_
  cases reply with
  | ok conn => exact always_pure
  | error message => exact always_pure

theorem inner_dialAnswer {network host port : String} {ips : List (Option IP)} :
    Always Inner (dialAnswer network host port ips) := by
  unfold dialAnswer
  cases ips.find? fun ip => !isBlockedIP ip with
  | some ip => exact inner_dial
  | none =>
    dsimp only
    split_ifs
    · exact always_pure
    · exact always_pure

theorem inner_dialContext {network addr : String} :
    Always Inner (dialContext cm p network addr) := by
  unfold dialContext
  cases splitHostPort addr with
  | none => exact always_pure
  | some parts =>
    dsimp only
    split_ifs
    · exact always_pure
    · exact inner_dial
    · cases parseIP parts.1 with
      | some ip =>
        dsimp only
        split_ifs
        · exact always_pure
        · exact inner_dial
      | none =>
        refine always_request inner_lasting (fun _ _ h => nomatch h) fun answer => ?_
        cases answer with
        | error message => exact always_pure
        | ok ips => exact inner_dialAnswer

theorem inner_openConns {conns : List Conn} : Always Inner (openConns m p hop n conns) := by
  induction n generalizing conns with
  | zero => exact always_pure
  | succ n ih =>
    refine inner_dialContext.bind inner_lasting fun r => ?_
    cases r with
    | error e => exact ih
    | ok conn => exact ih

theorem inner_validateTarget {target : String} : Always Inner (validateTarget m p target) :=
  always_validateTarget inner_lasting fun _ _ _ h => nomatch h

end Inner

section Chains

/-- A request is for a host name that was validated right before. -/
def Vetted (m : Machine) (p : TargetPolicy) (before : List (Event Net)) (e : Event Net) : Prop :=
  ∀ next, e.op = .connections next → ∃ earlier check, before = earlier ++ check ∧
    Runs (validateTarget m p next.hostname) check (.ok ())

theorem vetted_lasting : Lasting (Vetted m p) := by
  intro earlier before e h next he
  obtain ⟨first, check, rfl, hcheck⟩ := h next he
  exact ⟨earlier ++ first, check, (List.append_assoc ..).symm, hcheck⟩

theorem vetted_of_inner {es : List (Event Net)} (h : Along Inner es) : Along (Vetted m p) es :=
  fun before e after heq next he => absurd he (h before e after heq next)

/-- A request, and what follows of it. -/
theorem runs_exchange {redirect : Hop → Prog (Except Err Unit)} {r : Except Err Unit}
    (hnext : ∀ next es r, Runs (redirect next) es r → Along (Vetted m p) es)
    (h : Runs (exchange m p hop redirect) es r) :
    ∃ k es', es = ⟨.connections hop, k⟩ :: es' ∧ Along (Vetted m p) es' := by
  obtain ⟨k, es', rfl, hbegun⟩ := runs_request.mp h
  obtain ⟨conns, es₁, es₂, hopen, hsent, rfl⟩ := runs_bind.mp hbegun
  obtain ⟨reply, es₃, rfl, hend⟩ := runs_request.mp hsent
  refine ⟨k, _, rfl, (vetted_of_inner (inner_openConns _ _ hopen)).append vetted_lasting ?_⟩
  refine along_cons (fun _ he => nomatch he) fun before e after heq => ?_
  refine vetted_lasting [_] before e ?_
  match reply with
  | .error message =>
    rw [(runs_pure.mp hend).1] at heq
    exact along_nil before e after heq
  | .ok none =>
    rw [(runs_pure.mp hend).1] at heq
    exact along_nil before e after heq
  | .ok (some next) => exact hnext next _ _ hend before e after heq

/-- Every request of a client behind the first one is for a validated host name. -/
theorem runs_clientDo {r : Except Err Unit} (h : Runs (clientDo m p n hop) es r) :
    ∃ k es', es = ⟨.connections hop, k⟩ :: es' ∧ Along (Vetted m p) es' := by
  induction n generalizing hop es r with
  | zero =>
    refine runs_exchange (fun next es r hrun => ?_) h
    rw [(runs_pure.mp hrun).1]
    exact along_nil
  | succ n ih =>
    refine runs_exchange (fun next es r hrun => ?_) h
    obtain ⟨a, check, rest, hcheck, hrest, rfl⟩ := runs_bind.mp hrun
    have hinner := vetted_of_inner (m := m) (p := p) (inner_validateTarget _ _ hcheck)
    cases a with
    | error e =>
      rw [(runs_pure.mp hrest).1, List.append_nil]
      exact hinner
    | ok _ =>
      obtain ⟨k, es', rfl, hes'⟩ := ih hrest
      refine hinner.extend (along_cons ?_ fun before e after heq => ?_)
      · intro next' he
        obtain rfl := Request.connections.inj he
        exact ⟨[], check, by simp, hcheck⟩
      · have hvetted := hes' before e after heq
        exact vetted_lasting check _ e (vetted_lasting [_] before e hvetted)

end Chains

section Ports

variable {raw host : String} {port : Int}

theorem not_blocked {refusal : Refusal} :
    ¬ Runs (.pure (blocked refusal) : Prog (Except Err Unit)) es (.ok ()) :=
  fun h => nomatch (runs_pure.mp h).2

/-- A port only matters to the validation where the policy does not permit it. -/
theorem validateHostPort_iff (raw' : String) :
    Runs (validateHostPort cm p raw host port) es (.ok ()) ↔
      Runs (validateHostPort cm p raw' host 0) es (.ok ()) ∧ PortPermitted p port := by
  unfold validateHostPort
  dsimp only
  generalize metadataEndpoints.find? _ = endpoint
  by_cases hempty : host = ""
  · rw [if_pos hempty, if_pos hempty]
    exact iff_of_false not_blocked fun h => not_blocked h.1
  rw [if_neg hempty, if_neg hempty]
  by_cases hallowed : p.allowedHosts ≠ []
  · rw [if_pos hallowed, if_pos hallowed]
    exact (and_iff_left (Or.inl hallowed)).symm
  rw [if_neg hallowed, if_neg hallowed]
  by_cases hprivate : p.allowPrivateNetworks = true
  · rw [if_pos hprivate, if_pos hprivate]
    exact (and_iff_left (Or.inr (Or.inl hprivate))).symm
  rw [if_neg hprivate, if_neg hprivate]
  cases endpoint with
  | some endpoint => exact iff_of_false not_blocked fun h => not_blocked h.1
  | none =>
    dsimp only
    by_cases hinternal : (hasSuffix (toLower cm host) ".internal" ||
        hasSuffix (toLower cm host) ".local") = true
    · rw [if_pos hinternal, if_pos hinternal]
      exact iff_of_false not_blocked fun h => not_blocked h.1
    have hnone : ¬ (decide ((0 : Int) ≠ 0) && !isCommonScanPort 0) = true := by decide
    rw [if_neg hinternal, if_neg hinternal, if_neg hnone]
    by_cases hport : (decide (port ≠ 0) && !isCommonScanPort port) = true
    · rw [if_pos hport]
      refine iff_of_false not_blocked ?_
      rintro ⟨_, hpermitted⟩
      simp only [Bool.and_eq_true, decide_eq_true_eq, Bool.not_eq_true'] at hport
      obtain h | h | hzero | hcommon := hpermitted
      · exact hallowed h
      · exact hprivate h
      · exact hport.1 hzero
      · rw [hport.2] at hcommon
        cases hcommon
    · rw [if_neg hport]
      refine (and_iff_left (Or.inr (Or.inr ?_))).symm
      by_cases hzero : port = 0
      · exact Or.inl hzero
      · exact Or.inr (by simpa [hzero] using hport)

/-- The validation of a host name that reads back is that of the host without a port. -/
theorem validateTarget_readsBack (hreads : ReadsBack m host)
    (h : Runs (validateTarget m p host) es (.ok ())) :
    Runs (validateHostPort m.cases p (trimSpace host) host 0) es (.ok ()) := by
  obtain ⟨hlocal, hhost⟩ := hreads
  simp only [validateTarget, hlocal, Bool.false_eq_true, if_false, validateNetworkTarget,
    hhost] at h
  split_ifs at h
  · cases (runs_pure.mp h).2
  · cases (runs_pure.mp h).2
  · exact h

/-- A host name without colons and brackets reads back, if it looks like no path and has
no blanks at its ends. -/
theorem readsBack_bare (hbare : Bare host) (htrim : trimSpace host = host)
    (hlocal : looksLikeLocalPath host = false) : ReadsBack m host := by
  obtain ⟨hcolon, hplain⟩ := hbare
  have hurl : contains host "://" = false := by
    rw [Bool.eq_false_iff]
    intro hcontains
    have hpart : "://".toList <:+: host.toList := of_decide_eq_true hcontains
    exact hcolon (hpart.subset (by decide))
  have hsplit : splitHostPort host = none := by
    simp only [splitHostPort, cutLast, if_neg hcolon]
  rw [ReadsBack, htrim]
  refine ⟨hlocal, ?_⟩
  simp only [hostAndPort, hostPart, hurl, Bool.false_eq_true, if_false, splitTrimmed, hsplit,
    trimBrackets_plain hplain]

end Ports

/-- In every run of a client, with any number of redirects, the requests that it follows
redirects to are for hosts and ports that the policy accepts, exactly if all of their
ports are permitted, where the host names read back. -/
theorem redirects_respect_iff {r : Except Err Unit} (h : Runs (clientDo m p n hop) es r)
    (hreads : ∀ u, Followed toASCII es u → ReadsBack m u.hostname) :
    Along (Respects toASCII m p) es ↔
      ∀ u, Followed toASCII es u → PortPermitted p (effectivePort u) := by
  constructor
  · rintro hrespects u ⟨before, e, after, heq, hne, he⟩
    obtain ⟨_, check, _, hvalid⟩ := hrespects before e after heq hne u he
    exact ((validateHostPort_iff "").mp hvalid).2
  · intro hports before e after heq hne u he
    have hfollowed : Followed toASCII es u := ⟨before, e, after, heq, hne, he⟩
    obtain ⟨k, es', rfl, hvetted⟩ := runs_clientDo h
    cases before with
    | nil => exact absurd rfl hne
    | cons d before =>
      obtain ⟨rfl, hrest⟩ := List.cons.inj heq
      obtain ⟨earlier, check, rfl, hcheck⟩ := hvetted before e after hrest _ he
      refine ⟨_ :: earlier, check, rfl, ?_⟩
      exact (validateHostPort_iff _).mpr
        ⟨validateTarget_readsBack (hreads u hfollowed) hcheck, hports u hfollowed⟩

theorem joinHostPort_inj {host port port' : String}
    (h : joinHostPort host port = joinHostPort host port') : port = port' := by
  unfold joinHostPort at h
  split_ifs at h
  · exact String.append_right_inj _ |>.mp h
  · exact String.append_right_inj _ |>.mp h

/-- What a transport makes of a URL tells its effective port. -/
theorem effectivePort_of_hop {u u' : URL} (h : hopOf toASCII u = hopOf toASCII u') :
    u.hostname = u'.hostname ∧ effectivePort u = effectivePort u' := by
  obtain ⟨hname, haddr⟩ := Hop.mk.inj h
  unfold canonicalAddr at haddr
  rw [hname] at haddr
  refine ⟨hname, ?_⟩
  rw [effectivePort, effectivePort, joinHostPort_inj haddr]

section Chain

/-- The URL that a client is given, on the port of its scheme. -/
def origin : URL := { scheme := "http", host := "93.184.216.34" }

/-- A URL on a port that the policy permits. -/
def proxy : URL := { scheme := "http", host := "93.184.216.35:8080" }

/-- The URL of a mail server. -/
def mail : URL := { scheme := "http", host := "93.184.216.35:25" }

/-- One redirect is followed, over a new connection each time. -/
def redirected (next : URL) : List (Event Net) :=
  [⟨.connections (hopOf unlisted origin), (1 : Nat)⟩,
    dialled "tcp" (hopOf unlisted origin).addr (.ok ⟨0⟩),
    ⟨.roundTrip (hopOf unlisted origin) [⟨0⟩], .ok (some (hopOf unlisted next))⟩,
    ⟨.connections (hopOf unlisted next), (1 : Nat)⟩,
    dialled "tcp" (hopOf unlisted next).addr (.ok ⟨1⟩),
    ⟨.roundTrip (hopOf unlisted next) [⟨1⟩], .ok none⟩]

theorem dialContext_literal_runs {addr host port : String} {ip : IP} (conn : Conn)
    (hsplit : splitHostPort addr = some (host, port))
    (hpermit : hostPermitted cm guarded host = true) (hparse : parseIP host = some ip)
    (hopen : isBlockedIP (some ip) = false) :
    Runs (dialContext cm guarded "tcp" addr) [dialled "tcp" addr (.ok conn)] (.ok conn) := by
  have hprivate : guarded.allowPrivateNetworks = false := rfl
  simp only [dialContext, hsplit, hparse, hpermit, hprivate, hopen, Bool.not_true,
    Bool.false_eq_true, if_false]
  exact runs_request.mpr ⟨.ok conn, [], rfl, .pure _⟩

/-- A client opens one connection for a request, and acts on the response. -/
theorem exchange_runs {redirect : Hop → Prog (Except Err Unit)} {conn : Conn}
    {response : Option Hop} {r : Except Err Unit}
    (hdial : Runs (dialContext m.cases p "tcp" hop.addr) [dialled "tcp" hop.addr (.ok conn)]
      (.ok conn))
    (hend : Runs (response.elim (.pure (.ok ())) redirect) es r) :
    Runs (exchange m p hop redirect) (⟨.connections hop, (1 : Nat)⟩ ::
      dialled "tcp" hop.addr (.ok conn) :: ⟨.roundTrip hop [conn], .ok response⟩ :: es) r := by
  refine runs_request.mpr ⟨(1 : Nat), _, rfl, ?_⟩
  refine runs_bind.mpr ⟨[conn], [dialled "tcp" hop.addr (.ok conn)], _, ?_, ?_, rfl⟩
  · exact runs_bind.mpr ⟨.ok conn, _, [], hdial, .pure _, (List.append_nil _).symm⟩
  · refine runs_request.mpr ⟨.ok response, es, rfl, ?_⟩
    cases response with
    | none => exact hend
    | some next => exact hend

/-- A client stops at a response that does not redirect. -/
theorem clientDo_stops {conn : Conn}
    (hdial : Runs (dialContext m.cases p "tcp" hop.addr) [dialled "tcp" hop.addr (.ok conn)]
      (.ok conn)) :
    Runs (clientDo m p 0 hop) [⟨.connections hop, (1 : Nat)⟩, dialled "tcp" hop.addr (.ok conn),
      ⟨.roundTrip hop [conn], .ok none⟩] (.ok ()) := exchange_runs hdial (.pure _)

/-- A client follows a redirect to a host name that is accepted. -/
theorem clientDo_follows {conn : Conn} {next : Hop} {check : List (Event Net)} {r : Except Err Unit}
    (hdial : Runs (dialContext m.cases p "tcp" hop.addr) [dialled "tcp" hop.addr (.ok conn)]
      (.ok conn))
    (hcheck : Runs (validateTarget m p next.hostname) check (.ok ()))
    (hnext : Runs (clientDo m p n next) es r) :
    Runs (clientDo m p (n + 1) hop) (⟨.connections hop, (1 : Nat)⟩ ::
      dialled "tcp" hop.addr (.ok conn) :: ⟨.roundTrip hop [conn], .ok (some next)⟩ ::
        (check ++ es)) r :=
  exchange_runs hdial (runs_bind.mpr ⟨.ok (), check, es, hcheck, hnext, rfl⟩)

theorem validateTarget_literal :
    Runs (validateTarget workstation guarded "93.184.216.35") [] (.ok ()) := by
  have htrim : trimSpace "93.184.216.35" = "93.184.216.35" := by decide
  have hshort : ¬ len "93.184.216.35" > 512 := by decide
  have hlocal : looksLikeLocalPath "93.184.216.35" = false := by decide
  have hhost : hostAndPort workstation "93.184.216.35" = ("93.184.216.35", 0) := by decide
  have hendpoint :
      metadataEndpoints.find? (toLower workstation.cases "93.184.216.35" = ·) = none := by
    decide
  have hinternal : (hasSuffix (toLower workstation.cases "93.184.216.35") ".internal" ||
      hasSuffix (toLower workstation.cases "93.184.216.35") ".local") = false := by
    decide
  obtain ⟨ip, hparse, hopen⟩ : ∃ ip, parseIP "93.184.216.35" = some ip ∧
      isBlockedIP (some ip) = false := ⟨_, rfl, by decide⟩
  have hprivate : guarded.allowPrivateNetworks = false := rfl
  have hallowed : ¬ guarded.allowedHosts ≠ [] := by decide
  have hport : (decide ((0 : Int) ≠ 0) && !isCommonScanPort 0) = false := by decide
  have hne : ¬ "93.184.216.35" = "" := by decide
  simp only [validateTarget, validateNetworkTarget, validateHostPort, htrim, if_neg hne,
    if_neg hshort, hlocal, hhost, if_neg hallowed, hprivate, hendpoint, hinternal, hport, hparse,
    hopen, Bool.false_eq_true, if_false]
  exact .pure _

theorem runs_redirected {next : URL} {port : String} (hname : next.hostname = "93.184.216.35")
    (hsplit : splitHostPort (hopOf unlisted next).addr = some ("93.184.216.35", port)) :
    Runs (clientDo workstation guarded 1 (hopOf unlisted origin)) (redirected next) (.ok ()) := by
  have horigin : splitHostPort (hopOf unlisted origin).addr = some ("93.184.216.34", "80") := by
    decide
  obtain ⟨ip, hparse, hopen⟩ : ∃ ip, parseIP "93.184.216.34" = some ip ∧
      isBlockedIP (some ip) = false := ⟨_, rfl, by decide⟩
  obtain ⟨ip', hparse', hopen'⟩ : ∃ ip, parseIP "93.184.216.35" = some ip ∧
      isBlockedIP (some ip) = false := ⟨_, rfl, by decide⟩
  have hfirst : Runs (dialContext workstation.cases guarded "tcp" (hopOf unlisted origin).addr)
      [dialled "tcp" (hopOf unlisted origin).addr (.ok ⟨0⟩)] (.ok ⟨0⟩) :=
    dialContext_literal_runs ⟨0⟩ horigin (by decide) hparse hopen
  have hsecond : Runs (dialContext workstation.cases guarded "tcp" (hopOf unlisted next).addr)
      [dialled "tcp" (hopOf unlisted next).addr (.ok ⟨1⟩)] (.ok ⟨1⟩) :=
    dialContext_literal_runs ⟨1⟩ hsplit (by decide) hparse' hopen'
  have hcheck : Runs (validateTarget workstation guarded (hopOf unlisted next).hostname) []
      (.ok ()) := by
    rw [hopOf, hname]
    exact validateTarget_literal
  exact clientDo_follows hfirst hcheck (clientDo_stops hsecond)

/-- The only redirect is to the next URL. -/
theorem followed_redirected {next u : URL} (h : Followed unlisted (redirected next) u) :
    hopOf unlisted next = hopOf unlisted u := by
  obtain ⟨before, e, after, heq, hne, he⟩ := h
  have hmem : e ∈ (redirected next).tail := by
    cases before with
    | nil => exact absurd rfl hne
    | cons d before =>
      rw [heq]
      exact List.mem_append_right before List.mem_cons_self
  simp only [redirected, List.tail_cons, List.mem_cons, List.not_mem_nil, or_false] at hmem
  obtain rfl | rfl | rfl | rfl | rfl := hmem
  · cases he
  · cases he
  · exact Request.connections.inj he
  · cases he
  · cases he

theorem runs_redirected_proxy :
    Runs (clientDo workstation guarded 1 (hopOf unlisted origin)) (redirected proxy) (.ok ()) := by
  have hname : proxy.hostname = "93.184.216.35" := by decide
  have hsplit : splitHostPort (hopOf unlisted proxy).addr = some ("93.184.216.35", "8080") := by
    decide
  exact runs_redirected hname hsplit

theorem runs_redirected_mail :
    Runs (clientDo workstation guarded 1 (hopOf unlisted origin)) (redirected mail) (.ok ()) := by
  have hname : mail.hostname = "93.184.216.35" := by decide
  have hsplit : splitHostPort (hopOf unlisted mail).addr = some ("93.184.216.35", "25") := by
    decide
  exact runs_redirected hname hsplit

end Chain

/-- A redirect to a permitted port is followed. -/
theorem redirects_respect_proxy :
    Along (Respects unlisted workstation guarded) (redirected proxy) := by
  have hname : proxy.hostname = "93.184.216.35" := by decide
  have hport : effectivePort proxy = 8080 := by decide
  have hbare : Bare "93.184.216.35" := by
    simp only [Bare, Plain]
    decide
  refine (redirects_respect_iff runs_redirected_proxy fun u hu => ?_).mpr fun u hu => ?_
  · rw [← (effectivePort_of_hop (followed_redirected hu)).1, hname]
    exact readsBack_bare hbare (by decide) (by decide)
  · rw [← (effectivePort_of_hop (followed_redirected hu)).2, hport]
    exact Or.inr (Or.inr (Or.inr (by decide)))

/-- A redirect to a mail server is followed as well. -/
theorem mail_port_followed : ¬ ∀ (toASCII : String → Option String) (m : Machine)
    (p : TargetPolicy) (n : Nat) (hop : Hop) (es : List (Event Net)) (r : Except Err Unit),
      Runs (clientDo m p n hop) es r → Along (Respects toASCII m p) es := by
  intro h
  have hport : effectivePort mail = 25 := by decide
  have hrespects := h unlisted workstation guarded 1 _ _ _ runs_redirected_mail
  obtain ⟨_, check, _, hvalid⟩ := hrespects ((redirected mail).take 3)
    ⟨.connections (hopOf unlisted mail), (1 : Nat)⟩ ((redirected mail).drop 4) rfl
    (List.cons_ne_nil _ _) mail rfl
  obtain ⟨_, hpermitted⟩ := (validateHostPort_iff "").mp hvalid
  rw [hport] at hpermitted
  obtain hallowed | hprivate | hzero | hcommon := hpermitted
  · exact hallowed rfl
  · cases hprivate
  · cases hzero
  · exact absurd hcommon (by decide)

end RivicQ.Properties.Redirects
