import RivicQ.Discovery.Policies

namespace RivicQ.Discovery.SafeDial

open RivicQ.Lib.GoStrings RivicQ.Lib.HostPorts RivicQ.Lib.Addresses RivicQ.Lib.Programs
open RivicQ.Lib.Traces
open RivicQ.Discovery.Network RivicQ.Discovery.Policies

variable (cm : CaseMap) (p : TargetPolicy)

/-- Whether the policy allows a host name at all. -/
def hostPermitted (host : String) : Bool :=
  if host = "" then false
  else if p.allowedHosts ≠ [] then allowedHost cm p host
  else true

/-- The connect itself, with a plain dialer. -/
def dial (network addr : String) : Prog (Except Err Conn) :=
  .request (.dial network addr) fun
    | .ok conn => .pure (.ok conn)
    | .error message => .pure (.error (.failed "" message))

def addressText : Option IP → String
  | some ip => ip.string
  | none => "<nil>"

/-- Pin the connection to the first permitted address of an answer. -/
def dialAnswer (network host port : String) (ips : List (Option IP)) : Prog (Except Err Conn) :=
  match ips.find? fun ip => !isBlockedIP ip with
  | some ip => dial network (joinHostPort (addressText ip) port)
  | none =>
    if ips ≠ [] then .pure (blocked (.resolvesOnly host (ips.map addressText)))
    else .pure (.error (.noRoutableAddress host))

def dialContext (network addr : String) : Prog (Except Err Conn) :=
  match splitHostPort addr with
  | none => .pure (blocked (.unparsable addr))
  | some (host, port) =>
    if !hostPermitted cm p host then .pure (blocked (.hostNotAllowed host))
    else if p.allowPrivateNetworks then dial network addr
    else
      match parseIP host with
      | some ip =>
        if isBlockedIP (some ip) then .pure (blocked (.address ip)) else dial network addr
      | none =>
        .request (.lookupIPAddr host) fun
          | .error message => .pure (.error (.failed ("resolve " ++ host) message))
          | .ok ips => dialAnswer network host port ips

section Runs

/-- The resolver is asked for a host, and gives this answer. -/
def resolved (host : String) (answer : Answer) : Event Net := ⟨.lookupIPAddr host, answer⟩

/-- The dialer is handed an address. -/
def dialled (network addr : String) (reply : Except String Conn) : Event Net :=
  ⟨.dial network addr, reply⟩

theorem dialled_inj {network addr network' addr' : String} {reply reply' : Except String Conn} :
    dialled network addr reply = dialled network' addr' reply' ↔
      network = network' ∧ addr = addr' ∧ reply = reply' := by
  constructor
  · intro h
    cases h
    exact ⟨rfl, rfl, rfl⟩
  · rintro ⟨rfl, rfl, rfl⟩
    rfl

theorem dialled_ne_resolved {network addr host : String} {reply : Except String Conn}
    {answer : Answer} : dialled network addr reply ≠ resolved host answer := by
  intro h
  cases h

theorem runs_lookup {α : Type} {host : String} {k : Answer → Prog α} {es : List (Event Net)} {a : α}
    (answer : Answer) (h : Runs (k answer) es a) :
    Runs (.request (.lookupIPAddr host) k : Prog α) (resolved host answer :: es) a :=
  runs_request.mpr ⟨answer, es, rfl, h⟩

variable {cm p} {network addr : String} {es : List (Event Net)} {r : Except Err Conn}

theorem runs_dial (h : Runs (dial network addr) es r) : ∃ reply, es = [dialled network addr reply] := by
  obtain ⟨reply, es', rfl, h'⟩ := runs_request.mp h
  cases reply with
  | error message => exact ⟨_, by rw [(runs_pure.mp h').1]; rfl⟩
  | ok conn => exact ⟨_, by rw [(runs_pure.mp h').1]; rfl⟩

theorem runs_dialAnswer {host port : String} {ips : List (Option IP)}
    (h : Runs (dialAnswer network host port ips) es r) :
    es = [] ∨ ∃ x reply, some x ∈ ips ∧ isBlockedIP (some x) = false ∧
      es = [dialled network (joinHostPort x.string port) reply] := by
  unfold dialAnswer at h
  cases hfind : ips.find? fun ip => !isBlockedIP ip with
  | none =>
    simp only [hfind] at h
    split at h
    · exact Or.inl (runs_pure.mp h).1
    · exact Or.inl (runs_pure.mp h).1
  | some ip =>
    simp only [hfind] at h
    have hopen := List.find?_some hfind
    cases ip with
    | none => exact absurd hopen (by decide)
    | some x =>
      obtain ⟨reply, rfl⟩ := runs_dial h
      exact Or.inr ⟨x, reply, List.mem_of_find?_eq_some hfind, by simpa using hopen, rfl⟩

/-- Everything a guarded dial can do without private networks. -/
theorem runs_dialContext (hprivate : p.allowPrivateNetworks = false)
    (h : Runs (dialContext cm p network addr) es r) :
    es = [] ∨ ∃ host port, splitHostPort addr = some (host, port) ∧
      hostPermitted cm p host = true ∧
      ((∃ ip reply, parseIP host = some ip ∧ isBlockedIP (some ip) = false ∧
          es = [dialled network addr reply]) ∨
        (parseIP host = none ∧ ((∃ answer, es = [resolved host answer]) ∨
          ∃ ips x reply, some x ∈ ips ∧ isBlockedIP (some x) = false ∧
            es = [resolved host (.ok ips),
              dialled network (joinHostPort x.string port) reply]))) := by
  unfold dialContext at h
  cases hsplit : splitHostPort addr with
  | none =>
    simp only [hsplit] at h
    exact Or.inl (runs_pure.mp h).1
  | some parts =>
    obtain ⟨host, port⟩ := parts
    simp only [hsplit, hprivate, Bool.false_eq_true, if_false] at h
    by_cases hpermit : hostPermitted cm p host = true
    · rw [if_neg (by simp [hpermit])] at h
      cases hparse : parseIP host with
      | some ip =>
        simp only [hparse] at h
        by_cases hblocked : isBlockedIP (some ip) = true
        · rw [if_pos hblocked] at h
          exact Or.inl (runs_pure.mp h).1
        · rw [if_neg hblocked] at h
          obtain ⟨reply, rfl⟩ := runs_dial h
          right
          exact ⟨host, port, rfl, hpermit,
            Or.inl ⟨ip, reply, hparse, Bool.eq_false_iff.mpr hblocked, rfl⟩⟩
      | none =>
        simp only [hparse] at h
        obtain ⟨answer, es', rfl, h'⟩ := runs_request.mp h
        right
        refine ⟨host, port, rfl, hpermit, Or.inr ⟨hparse, ?_⟩⟩
        cases answer with
        | error message =>
          rw [(runs_pure.mp h').1]
          exact Or.inl ⟨_, rfl⟩
        | ok ips =>
          obtain rfl | ⟨x, reply, hx, hopen, rfl⟩ := runs_dialAnswer h'
          · exact Or.inl ⟨_, rfl⟩
          · exact Or.inr ⟨ips, x, reply, hx, hopen, rfl⟩
    · rw [if_pos (by simp [hpermit])] at h
      exact Or.inl (runs_pure.mp h).1

end Runs

end RivicQ.Discovery.SafeDial
