import RivicQ.Discovery.SafeDial
import RivicQ.Discovery.Scans

namespace RivicQ.Properties.Dialling

open RivicQ.Lib.GoStrings RivicQ.Lib.HostPorts RivicQ.Lib.Addresses RivicQ.Lib.AddressText
open RivicQ.Lib.Programs RivicQ.Lib.Traces
open RivicQ.Discovery.Network RivicQ.Discovery.Policies RivicQ.Discovery.SafeDial

variable (cm : CaseMap) (p : TargetPolicy)

/-- What may be dialled for a request, and in which course of events: an unblocked
literal with the port asked for, which is the literal asked for or comes from the
only answer there was, for a host the policy does not exclude. -/
def Pinned (network addr dialledAddr : String) (es : List (Event Net)) : Prop :=
  ∃ host port literal ip reply,
    splitHostPort addr = some (host, port) ∧ splitHostPort dialledAddr = some (literal, port) ∧
    (p.allowedHosts = [] ∨ ∃ h ∈ p.allowedHosts, equalFold cm h host = true) ∧
    parseIP literal = some ip ∧ isBlockedIP (some ip) = false ∧
    ((dialledAddr = addr ∧ es = [dialled network dialledAddr reply]) ∨
      ∃ ips x, some x ∈ ips ∧ x.to16 = ip ∧
        es = [resolved host (.ok ips), dialled network dialledAddr reply])

variable {cm p} {network network' addr dialledAddr : String} {es : List (Event Net)}
  {r : Except Err Conn} {reply : Except String Conn}

theorem hostPermitted_allowed {host : String} (h : hostPermitted cm p host = true) :
    p.allowedHosts = [] ∨ ∃ h ∈ p.allowedHosts, equalFold cm h host = true := by
  unfold hostPermitted at h
  split at h
  · cases h
  · split at h
    · exact Or.inr (List.any_eq_true.mp h)
    · rename_i hnil
      exact Or.inl (not_not.mp hnil)

theorem plain_string (x : IP) : Plain x.string :=
  ⟨bracket_string (Or.inl rfl), bracket_string (Or.inr rfl)⟩

theorem pinned_of_runs (hprivate : p.allowPrivateNetworks = false)
    (hrun : Runs (dialContext cm p network addr) es r)
    (hdial : dialled network' dialledAddr reply ∈ es) :
    network' = network ∧ Pinned cm p network addr dialledAddr es := by
  obtain rfl | ⟨host, port, hsplit, hpermit, hcase⟩ := runs_dialContext hprivate hrun
  · cases hdial
  have hallowed := hostPermitted_allowed hpermit
  obtain ⟨_, hport, hcolon⟩ := splitHostPort_plain hsplit
  obtain ⟨ip, reply', hparse, hopen, rfl⟩ | ⟨_, ⟨answer, rfl⟩ | ⟨ips, x, reply', hx, hopen, rfl⟩⟩ :=
    hcase
  · obtain ⟨rfl, rfl, rfl⟩ := dialled_inj.mp (List.mem_singleton.mp hdial)
    exact ⟨rfl, host, port, host, ip, reply, hsplit, hsplit, hallowed, hparse, hopen,
      Or.inl ⟨rfl, rfl⟩⟩
  · exact absurd (List.mem_singleton.mp hdial) dialled_ne_resolved
  · obtain hdial | hdial := List.mem_cons.mp hdial
    · exact absurd hdial dialled_ne_resolved
    obtain ⟨rfl, rfl, rfl⟩ := dialled_inj.mp (List.mem_singleton.mp hdial)
    refine ⟨rfl, host, port, x.string, x.to16, reply, hsplit, ?_, hallowed, parseIP_string, ?_,
      Or.inr ⟨ips, x, hx, rfl, rfl⟩⟩
    · exact splitHostPort_joinHostPort (plain_string x) hport hcolon
    · rw [isBlockedIP_to16, hopen]

/-- Every address that is handed to the dialer was checked for that very request. -/
theorem dial_pinned (hprivate : p.allowPrivateNetworks = false)
    (hrun : Runs (dialContext cm p network addr) es r)
    (hdial : dialled network' dialledAddr reply ∈ es) :
    network' = network ∧ Pinned cm p network addr dialledAddr es :=
  pinned_of_runs hprivate hrun hdial

/-- The restrictive policy. -/
def defaultTargetPolicy : TargetPolicy where
  allowLocalPaths := false
  localPathRoots := []
  allowPrivateNetworks := false
  allowedHosts := []

/-- A private address in the form of four bytes, and a public one in the other. -/
def mixed : List (Option IP) :=
  [some ⟨[10, 0, 0, 7], Or.inl rfl⟩,
    some ⟨v4InV6Prefix ++ [93, 184, 216, 34], Or.inr rfl⟩]

/-- A dial of a name with a mixed answer succeeds at the public address. -/
theorem dialContext_mixed (port : String) (hsplit : splitHostPort addr = some ("example.org", port))
    (hjoin : joinHostPort "93.184.216.34" port = dialledAddr) :
    Runs (dialContext asciiCase defaultTargetPolicy "tcp" addr)
      [resolved "example.org" (.ok mixed), dialled "tcp" dialledAddr (.ok ⟨0⟩)] (.ok ⟨0⟩) := by
  have hparse : parseIP "example.org" = none := by decide
  have hpermit : hostPermitted asciiCase defaultTargetPolicy "example.org" = true := by
    decide
  have hfind : mixed.find? (fun ip => !isBlockedIP ip) =
      some (some ⟨v4InV6Prefix ++ [93, 184, 216, 34], Or.inr rfl⟩) := by
    decide
  have htext : addressText (some ⟨v4InV6Prefix ++ [93, 184, 216, 34], Or.inr rfl⟩) =
      "93.184.216.34" := by
    decide
  have hprivate : defaultTargetPolicy.allowPrivateNetworks = false := rfl
  simp only [dialContext, hsplit, hparse, hpermit, hprivate, Bool.not_true, Bool.false_eq_true,
    if_false]
  apply runs_lookup (.ok mixed)
  simp only [dialAnswer, hfind, htext, hjoin]
  exact runs_request.mpr ⟨.ok ⟨0⟩, [], rfl, .pure _⟩

/-- Of a mixed answer the public address is dialled. -/
theorem dial_pinned_mixed :
    "tcp" = "tcp" ∧ Pinned asciiCase defaultTargetPolicy "tcp" "example.org:443" "93.184.216.34:443"
      [resolved "example.org" (.ok mixed), dialled "tcp" "93.184.216.34:443" (.ok ⟨0⟩)] :=
  dial_pinned rfl (dialContext_mixed "443" (by decide) (by decide))
    (List.mem_cons_of_mem _ List.mem_cons_self)

end RivicQ.Properties.Dialling

namespace RivicQ.Properties.Sockets

open RivicQ.Lib.GoStrings RivicQ.Lib.HostPorts RivicQ.Lib.Addresses RivicQ.Lib.Programs
open RivicQ.Lib.Traces
open RivicQ.Discovery.Network RivicQ.Discovery.Policies RivicQ.Discovery.SafeDial
open RivicQ.Discovery.LocalPaths RivicQ.Discovery.Validation RivicQ.Discovery.Targets
open RivicQ.Discovery.Scanners RivicQ.Properties.Dialling

/-- A server answers a handshake. -/
def shook (conn : Conn) (addr : String) (reply : Except String Unit) : Event Net :=
  ⟨.sshClientConn conn addr, reply⟩

variable (cm : CaseMap) (p : TargetPolicy)

/-- A dial is to an address that was checked for that very connection, by what was
done right before it. -/
def Guarded (before : List (Event Net)) (e : Event Net) : Prop :=
  ∀ network addr reply, e = dialled network addr reply →
    ∃ earlier own requested, before = earlier ++ own ∧
      Pinned cm p network requested addr (own ++ [e])

/-- An address whose host needs no resolver. -/
def Literal (addr : String) : Prop :=
  ∃ host port ip, splitHostPort addr = some (host, port) ∧ parseIP host = some ip

/-- A handshake with a server that was asked for by name does not fail before the
server asks for credentials. -/
def Answered (e : Event Net) : Prop :=
  ∀ conn addr message, e = shook conn addr (.error message) →
    reachedAuth message = true ∨ Literal addr

/-- The connections that are guarded are those after answered handshakes only. -/
def Exact (before : List (Event Net)) (e : Event Net) : Prop :=
  ∀ network addr reply, e = dialled network addr reply →
    (Guarded cm p before e ↔ ∀ d ∈ before, Answered d)

/-- No SSH session is begun. -/
def Silent (_ : List (Event Net)) (e : Event Net) : Prop := ∀ conn addr reply, e ≠ shook conn addr reply

variable {cm p} {m : Machine} {network addr : String} {es : List (Event Net)}
  {target : Target} {hop : Hop}

theorem guarded_of_ne {before : List (Event Net)} {e : Event Net}
    (h : ∀ network addr reply, e ≠ dialled network addr reply) : Guarded cm p before e :=
  fun network addr reply he => absurd he (h network addr reply)

theorem resolved_ne_dialled {host : String} {answer : Answer} {reply : Except String Conn} :
    resolved host answer ≠ dialled network addr reply := by
  intro h
  cases h

theorem shook_ne_dialled {conn : Conn} {reply : Except String Unit} {reply' : Except String Conn}
    {addr' : String} : shook conn addr reply ≠ dialled network addr' reply' := by
  intro h
  cases h

theorem dialled_ne_shook {conn : Conn} {reply : Except String Unit} {reply' : Except String Conn}
    {addr' : String} : dialled network addr' reply' ≠ shook conn addr reply :=
  shook_ne_dialled.symm

theorem resolved_ne_shook {host : String} {answer : Answer} {conn : Conn}
    {reply : Except String Unit} : resolved host answer ≠ shook conn addr reply := by
  intro h
  cases h

theorem shook_inj {conn conn' : Conn} {addr' : String} {reply reply' : Except String Unit} :
    shook conn addr reply = shook conn' addr' reply' ↔
      conn = conn' ∧ addr = addr' ∧ reply = reply' := by
  constructor
  · intro h
    cases h
    exact ⟨rfl, rfl, rfl⟩
  · rintro ⟨rfl, rfl, rfl⟩
    rfl

theorem answered_of_silent {before : List (Event Net)} {e : Event Net} (h : Silent before e) :
    Answered e := fun conn addr message he => absurd he (h conn addr (.error message))

theorem exact_of_ne {before : List (Event Net)} {e : Event Net}
    (h : ∀ network addr reply, e ≠ dialled network addr reply) : Exact cm p before e :=
  fun network addr reply he => absurd he (h network addr reply)

theorem guarded_lasting : Lasting (Guarded cm p) := by
  intro earlier before e h network addr reply he
  obtain ⟨first, own, requested, rfl, hpinned⟩ := h network addr reply he
  exact ⟨earlier ++ first, own, requested, (List.append_assoc ..).symm, hpinned⟩

theorem guarded_dial {own : List (Event Net)} {requested : String} {reply : Except String Conn}
    (h : Pinned cm p network requested addr (own ++ [dialled network addr reply])) :
    Guarded cm p own (dialled network addr reply) := by
  intro network' addr' reply' he
  obtain ⟨rfl, rfl, rfl⟩ := dialled_inj.mp he
  exact ⟨[], own, requested, rfl, h⟩

section Scans

variable {P : List (Event Net) → Event Net → Prop} {α : Type} {o : Request}

/-- A request that neither opens a connection nor shakes hands for an SSH session. -/
def Quiet (o : Request) : Prop :=
  (∀ network addr, o ≠ .dial network addr) ∧ ∀ conn addr, o ≠ .sshClientConn conn addr

/-- What holds along every guarded dial and is not touched by quiet requests. -/
structure Carried (cm : CaseMap) (p : TargetPolicy) (P : List (Event Net) → Event Net → Prop) :
    Prop where
  lasting : Lasting P
  dial : ∀ network addr, Always P (dialContext cm p network addr)
  quiet : ∀ o (r : Net.Reply o), Quiet o → P [] ⟨o, r⟩

theorem Carried.request (h : Carried cm p P) {k : Net.Reply o → Prog α} (ho : Quiet o)
    (hk : ∀ r, Always P (k r)) : Always P (.request o k : Prog α) :=
  always_request h.lasting (fun r => h.quiet o r ho) hk

theorem Carried.validateTarget (h : Carried cm p P) {q : TargetPolicy} {raw : String} :
    Always P (validateTarget m q raw) := by
  have hquiet : ∀ host, Quiet (.lookupIP host) := fun host => ⟨by simp, by simp⟩
  exact always_validateTarget h.lasting fun host answer =>
    h.quiet (.lookupIP host) answer (hquiet host)

variable (h : Carried m.cases p P)

include h

theorem always_tlsScan : Always P (tlsScan m p target) := by
  refine (h.dial _ _).bind h.lasting fun r => ?_
  cases r with
  | error e => exact always_pure
  | ok conn =>
    refine h.request ⟨by simp, by simp⟩ fun reply => ?_
    cases reply <;> exact always_pure

theorem always_openConns {n : Nat} {conns : List Conn} : Always P (openConns m p hop n conns) := by
  induction n generalizing conns with
  | zero => exact always_pure
  | succ n ih =>
    refine (h.dial _ _).bind h.lasting fun r => ?_
    cases r with
    | error e => exact ih
    | ok conn => exact ih

theorem always_exchange {redirect : Hop → Prog (Except Err Unit)}
    (hnext : ∀ next, Always P (redirect next)) : Always P (exchange m p hop redirect) := by
  refine h.request ⟨by simp, by simp⟩ fun n => (always_openConns h).bind h.lasting fun conns => ?_
  refine h.request ⟨by simp, by simp⟩ fun reply => ?_
  match reply with
  | .error message => exact always_pure
  | .ok none => exact always_pure
  | .ok (some next) => exact hnext next

theorem always_clientDo {n : Nat} : Always P (clientDo m p n hop) := by
  induction n generalizing hop with
  | zero => exact always_exchange h fun _ => always_pure
  | succ n ih =>
    refine always_exchange h fun next => h.validateTarget.bind h.lasting fun r => ?_
    cases r with
    | error e => exact always_pure
    | ok _ => exact ih

theorem always_httpScan : Always P (httpScan m p target) := by
  refine h.request ⟨by simp, by simp⟩ fun reply => ?_
  match reply with
  | .error message => exact always_pure
  | .ok hop =>
    refine (always_clientDo h).bind h.lasting fun r => ?_
    cases r <;> exact always_pure

omit h in
/-- Everything an SSH scan can do: a guarded dial, a handshake, and, if that fails too
early, a dial of the same target without the guard. -/
theorem runs_sshScan {r : Except Err Unit} (hrun : Runs (sshScan m p target) es r) :
    ∃ a es₁ es₂, Runs (dialContext m.cases p "tcp" (targetAddr target)) es₁ a ∧ es = es₁ ++ es₂ ∧
      (es₂ = [] ∨ ∃ conn reply, a = .ok conn ∧
        (es₂ = [shook conn (targetAddr target) reply] ∨
          ∃ message again, reply = .error message ∧ reachedAuth message = false ∧
            (es₂ = [shook conn (targetAddr target) reply, dialled "tcp" (targetAddr target) again] ∨
              ∃ conn' reply', es₂ = [shook conn (targetAddr target) reply,
                dialled "tcp" (targetAddr target) again,
                shook conn' (targetAddr target) reply']))) := by
  obtain ⟨a, es₁, es₂, h₁, h₂, rfl⟩ := runs_bind.mp hrun
  refine ⟨a, es₁, es₂, h₁, rfl, ?_⟩
  cases a with
  | error e => exact Or.inl (runs_pure.mp h₂).1
  | ok conn =>
    obtain ⟨reply, es', rfl, h'⟩ := runs_request.mp h₂
    refine Or.inr ⟨conn, reply, rfl, ?_⟩
    match reply with
    | .ok _ =>
      rw [(runs_pure.mp h').1]
      exact Or.inl rfl
    | .error message =>
      simp only at h'
      split_ifs at h' with hreached
      · rw [(runs_pure.mp h').1]
        exact Or.inl rfl
      right
      obtain ⟨a, es₂, es₃, hdial, hrest, rfl⟩ := runs_bind.mp h'
      obtain ⟨again, rfl⟩ := runs_dial hdial
      refine ⟨message, again, rfl, Bool.eq_false_iff.mpr hreached, ?_⟩
      cases a with
      | error e =>
        rw [(runs_pure.mp hrest).1]
        exact Or.inl rfl
      | ok conn' =>
        obtain ⟨reply', es'', rfl, hend⟩ := runs_request.mp hrest
        rw [(runs_pure.mp hend).1]
        exact Or.inr ⟨conn', reply', rfl⟩

end Scans

section Guards

variable (hprivate : p.allowPrivateNetworks = false)

include hprivate

/-- What the policy opens a connection to is checked right before. -/
theorem carried_guarded : Carried cm p (Guarded cm p) where
  lasting := guarded_lasting
  quiet o r h := guarded_of_ne fun network addr _ he => h.1 network addr (congrArg Event.op he)
  dial network addr es r hrun := by
    have hpinned : ∀ {network' addr' reply}, dialled network' addr' reply ∈ es →
        network' = network ∧ Pinned cm p network addr addr' es := pinned_of_runs hprivate hrun
    obtain rfl | ⟨host, port, _, _, hcase⟩ := runs_dialContext hprivate hrun
    · exact along_nil
    obtain ⟨_, reply, _, _, rfl⟩ | ⟨_, ⟨answer, rfl⟩ | ⟨ips, x, reply, _, _, rfl⟩⟩ := hcase
    · exact along_cons (guarded_dial (hpinned List.mem_cons_self).2) along_nil
    · exact along_cons (guarded_of_ne fun _ _ _ => resolved_ne_dialled) along_nil
    · refine along_cons (guarded_of_ne fun _ _ _ => resolved_ne_dialled) (along_cons ?_ along_nil)
      exact @guarded_dial _ _ _ _ [_] _ _ (hpinned (List.mem_cons_of_mem _ List.mem_cons_self)).2

theorem carried_silent : Carried cm p Silent where
  lasting _ _ _ h := h
  quiet o r h conn addr _ he := h.2 conn addr (congrArg Event.op he)
  dial network addr es r hrun := by
    obtain rfl | ⟨host, port, _, _, hcase⟩ := runs_dialContext hprivate hrun
    · exact along_nil
    obtain ⟨_, reply, _, _, rfl⟩ | ⟨_, ⟨answer, rfl⟩ | ⟨ips, x, reply, _, _, rfl⟩⟩ := hcase
    · exact along_cons (fun _ _ _ => dialled_ne_shook) along_nil
    · exact along_cons (fun _ _ _ => resolved_ne_shook) along_nil
    · exact along_cons (fun _ _ _ => resolved_ne_shook)
        (along_cons (fun _ _ _ => dialled_ne_shook) along_nil)

theorem exact_of_carried {α : Type} {q : Prog α} (h : ∀ P, Carried cm p P → Always P q) :
    Always (Exact cm p) q := by
  intro es r hrun before e after heq network addr reply he
  have hguarded := h _ (carried_guarded hprivate) es r hrun before e after heq
  have hsilent := h _ (carried_silent hprivate) es r hrun
  refine ⟨fun _ d hd => ?_, fun _ => hguarded⟩
  obtain ⟨first, second, rfl⟩ := List.append_of_mem hd
  exact answered_of_silent (hsilent first d (second ++ e :: after) (by simp [heq]))

theorem dialContext_literal {host port : String} {ip : IP} {conn : Conn}
    (hsplit : splitHostPort addr = some (host, port)) (hparse : parseIP host = some ip)
    (hrun : Runs (dialContext cm p network addr) es (.ok conn)) :
    hostPermitted cm p host = true ∧ isBlockedIP (some ip) = false := by
  unfold dialContext at hrun
  simp only [hsplit, hparse, hprivate, Bool.false_eq_true, if_false] at hrun
  split_ifs at hrun with hpermit hblocked
  · cases (runs_pure.mp hrun).2
  · cases (runs_pure.mp hrun).2
  · exact ⟨by simpa using hpermit, Bool.eq_false_iff.mpr hblocked⟩

/-- The second dial of a scan goes where the first one went, if that was no name. -/
theorem exact_again {conn : Conn} {message : String} {again : Except String Conn}
    (hrun : Runs (dialContext cm p "tcp" (targetAddr target)) es (.ok conn))
    (hearly : reachedAuth message = false) :
    Exact cm p (es ++ [shook conn (targetAddr target) (.error message)])
      (dialled "tcp" (targetAddr target) again) := by
  intro network addr reply he
  obtain ⟨rfl, rfl, rfl⟩ := dialled_inj.mp he
  constructor
  · intro hguarded d hd
    obtain ⟨_, _, _, _, _, port, literal, ip, _, _, hsplit, _, hparse, _⟩ := hguarded _ _ _ rfl
    obtain hd | hd := List.mem_append.mp hd
    · obtain ⟨first, second, heq⟩ := List.append_of_mem hd
      exact answered_of_silent ((carried_silent hprivate).dial _ _ es _ hrun first d second heq)
    · intro conn' addr' message' he'
      obtain ⟨_, rfl, _⟩ := shook_inj.mp ((List.mem_singleton.mp hd).symm.trans he')
      exact Or.inr ⟨literal, port, ip, hsplit, hparse⟩
  · intro hanswered
    have hlast := hanswered _ (List.mem_append_right es List.mem_cons_self)
    obtain hbad | ⟨host, port, ip, hsplit, hparse⟩ := hlast conn _ message rfl
    · rw [hearly] at hbad
      cases hbad
    obtain ⟨hpermit, hopen⟩ := dialContext_literal hprivate hsplit hparse hrun
    intro network addr reply he
    obtain ⟨rfl, rfl, rfl⟩ := dialled_inj.mp he
    exact ⟨_, [], targetAddr target, (List.append_nil _).symm, host, port, host, ip, _, hsplit, hsplit,
      hostPermitted_allowed hpermit, hparse, hopen, Or.inl ⟨rfl, rfl⟩⟩

theorem exact_sshScan : Always (Exact m.cases p) (sshScan m p target) := by
  intro es r hrun
  obtain ⟨a, es₁, es₂, hdial, rfl, hrest⟩ := runs_sshScan hrun
  have hfirst : Along (Exact m.cases p) es₁ :=
    exact_of_carried hprivate (fun P h => h.dial "tcp" (targetAddr target)) es₁ a hdial
  refine hfirst.extend ?_
  obtain rfl | ⟨conn, reply, rfl, rfl | ⟨message, again, rfl, hearly, rfl | ⟨conn', reply', rfl⟩⟩⟩ :=
    hrest
  · exact along_nil
  · exact along_cons (exact_of_ne fun _ _ _ => shook_ne_dialled) along_nil
  · exact along_cons (exact_of_ne fun _ _ _ => shook_ne_dialled)
      (along_cons (exact_again hprivate hdial hearly) along_nil)
  · exact along_cons (exact_of_ne fun _ _ _ => shook_ne_dialled)
      (along_cons (exact_again hprivate hdial hearly)
        (along_cons (exact_of_ne fun _ _ _ => shook_ne_dialled) along_nil))

theorem exact_scanTarget : Always (Exact m.cases p) (scanTarget m p target) := by
  unfold scanTarget
  split_ifs
  · exact exact_of_carried hprivate fun P h => always_tlsScan h
  · exact exact_sshScan hprivate
  · exact exact_of_carried hprivate fun P h => always_httpScan h
  · exact always_pure

end Guards

variable {targets : List Target} {before after : List (Nat × Event Net)} {i : Nat}
  {reply : Except String Conn}

/-- A connection of a scan is to an address that was checked for it, exactly if no
server that goes by name has failed the handshake of that scan before. -/
theorem sockets_guarded (hprivate : p.allowPrivateNetworks = false)
    (hrun : Interleaves (scanAll m p targets) (before ++ (i, dialled network addr reply) :: after)) :
    Guarded m.cases p (project i before) (dialled network addr reply) ↔
      ∀ d ∈ project i before, Answered d := by
  have halways : ∀ q ∈ scanAll m p targets, Always (Exact m.cases p) q := by
    intro q hq
    obtain ⟨target, _, rfl⟩ := List.mem_map.mp hq
    exact exact_scanTarget hprivate
  exact along_interleaves halways hrun network addr reply rfl

def server : Target where
  id := "target-1"
  host := "example.org"
  port := 22
  protocol := "ssh"
  label := "SSH Scan: example.org"
  kind := "host"

/-- The server closes the connection it was dialled at, and is dialled by its name. -/
def closed : List (Event Net) :=
  [resolved "example.org" (.ok mixed), dialled "tcp" "93.184.216.34:22" (.ok ⟨0⟩),
    shook ⟨0⟩ "example.org:22" (.error "ssh: handshake failed: EOF"),
    dialled "tcp" "example.org:22" (.ok ⟨1⟩)]

theorem targetAddr_server : targetAddr server = "example.org:22" := by decide

theorem sshScan_closed : Runs (sshScan bare defaultTargetPolicy server)
    (closed ++ [shook ⟨1⟩ "example.org:22" (.ok ())]) (.ok ()) := by
  have hearly : reachedAuth "ssh: handshake failed: EOF" = false := by decide
  have hdial : Runs (dialContext asciiCase defaultTargetPolicy "tcp" "example.org:22")
      [resolved "example.org" (.ok mixed), dialled "tcp" "93.184.216.34:22" (.ok ⟨0⟩)] (.ok ⟨0⟩) :=
    dialContext_mixed "22" (by decide) (by decide)
  unfold sshScan
  rw [targetAddr_server]
  refine runs_bind.mpr ⟨_, _, closed.drop 2 ++ [_], hdial, ?_, rfl⟩
  refine runs_request.mpr ⟨.error "ssh: handshake failed: EOF", _, rfl, ?_⟩
  simp only [hearly, Bool.false_eq_true, if_false]
  unfold scanBanner
  rw [targetAddr_server]
  refine runs_bind.mpr ⟨.ok ⟨1⟩, [dialled "tcp" "example.org:22" (.ok ⟨1⟩)], _, ?_, ?_, rfl⟩
  · exact runs_request.mpr ⟨.ok ⟨1⟩, [], rfl, .pure _⟩
  · exact runs_request.mpr ⟨.ok (), [], rfl, .pure _⟩

theorem scanAll_closed : Interleaves (scanAll bare defaultTargetPolicy [server])
    (closed.map fun e => (0, e)) :=
  interleaves_alone sshScan_closed

/-- The first connection to a server that goes by name is guarded. -/
theorem sockets_guarded_first : Guarded asciiCase defaultTargetPolicy
    [resolved "example.org" (.ok mixed)] (dialled "tcp" "93.184.216.34:22" (.ok ⟨0⟩)) := by
  have hrun : Interleaves (scanAll bare defaultTargetPolicy [server])
      ([(0, resolved "example.org" (.ok mixed))] ++
        (0, dialled "tcp" "93.184.216.34:22" (.ok ⟨0⟩)) :: (closed.drop 2).map fun e => (0, e)) :=
    scanAll_closed
  refine (sockets_guarded rfl hrun).mpr fun d hd => ?_
  obtain rfl := List.mem_singleton.mp hd
  exact @answered_of_silent [] _ fun _ _ _ => resolved_ne_shook

/-- After a handshake that fails early, a server is dialled by its name. -/
theorem dialled_by_name : ¬ ∀ (m : Machine) (p : TargetPolicy) (targets : List Target)
    (before after : List (Nat × Event Net)) (i : Nat) (network addr : String)
    (reply : Except String Conn), p.allowPrivateNetworks = false →
    Interleaves (scanAll m p targets) (before ++ (i, dialled network addr reply) :: after) →
      Guarded m.cases p (project i before) (dialled network addr reply) := by
  intro h
  have hguarded := h bare defaultTargetPolicy [server] ((closed.take 3).map fun e => (0, e)) [] 0
    "tcp" "example.org:22" (.ok ⟨1⟩) rfl scanAll_closed
  obtain ⟨_, _, _, _, _, _, literal, ip, _, _, hsplit, _, hparse, _⟩ := hguarded _ _ _ rfl
  have hname : (splitHostPort "example.org:22").bind (fun parts => parseIP parts.1) = none := by
    decide
  rw [hsplit, Option.bind_some, hparse] at hname
  cases hname

end RivicQ.Properties.Sockets
