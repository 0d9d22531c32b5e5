import RivicQ.Discovery.SafeDial

namespace RivicQ.Properties.Agreement

open RivicQ.Lib.GoStrings RivicQ.Lib.HostPorts RivicQ.Lib.Addresses RivicQ.Lib.Programs
open RivicQ.Discovery.Network RivicQ.Discovery.Policies RivicQ.Discovery.SafeDial

/-- Surroundings whose resolver always gives the same answer; they note the
addresses the dialer is handed, none of which can be reached. -/
def answering (ips : List (Option IP)) : Handler Net (List (String × String))
  | .lookupIP _, w => (.ok ips, w)
  | .lookupIPAddr _, w => (.ok ips, w)
  | .dial network addr, w => (.error "unreachable", w ++ [(network, addr)])
  | .tlsHandshake _, w => (.ok (), w)
  | .sshClientConn _ _, w => (.ok (), w)
  | .parseURL _, w => (.error "no URL", w)
  | .connections _, w => ((0 : Nat), w)
  | .roundTrip _ _, w => (.ok none, w)

variable (cm : CaseMap) (p : TargetPolicy) (ips : List (Option IP))

/-- Validation lets the host and port pass. -/
def Accepts (raw host : String) (port : Int) : Prop :=
  (run (answering ips) (validateHostPort cm p raw host port) []).1 = .ok ()

/-- The dialer is handed some address. -/
def Attempts (network addr : String) : Prop :=
  (run (answering ips) (dialContext cm p network addr) []).2 ≠ []

/-- What a host stands for: itself, or what its name resolves to. -/
def addresses (host : String) : List (Option IP) :=
  match parseIP host with
  | some ip => [some ip]
  | none => ips

def Reachable (host : String) : Prop := ∃ ip ∈ addresses ips host, isBlockedIP ip = false

def Clean (host : String) : Prop := ∀ ip ∈ addresses ips host, isBlockedIP ip = false

/-- A name that is neither a metadata endpoint nor internal. -/
def Outward (host : String) : Prop :=
  toLower cm host ∉ metadataEndpoints ∧
    hasSuffix (toLower cm host) ".internal" = false ∧ hasSuffix (toLower cm host) ".local" = false

def PortPermitted (port : Int) : Prop := port = 0 ∨ isCommonScanPort port = true

instance (host : String) : Decidable (Reachable ips host) :=
  inferInstanceAs (Decidable (∃ ip ∈ addresses ips host, isBlockedIP ip = false))

instance (host : String) : Decidable (Clean ips host) :=
  inferInstanceAs (Decidable (∀ ip ∈ addresses ips host, isBlockedIP ip = false))

instance (host : String) : Decidable (Outward cm host) := inferInstanceAs (Decidable (_ ∧ _ ∧ _))

instance (port : Int) : Decidable (PortPermitted port) := inferInstanceAs (Decidable (_ ∨ _))

variable {cm p ips} {raw host port network addr : String} {n : Int}

theorem blocked_ne_ok {α : Type} {refusal : Refusal} {a : α} : (blocked refusal : Except Err α) ≠ .ok a := by
  rintro ⟨⟩

theorem checkAnswer_ok : checkAnswer host (.ok ips) = .ok () ↔
    ∀ ip ∈ ips, isBlockedIP ip = false := by
  simp only [checkAnswer]
  cases hfind : ips.find? isBlockedIP with
  | none =>
    rw [List.find?_eq_none] at hfind
    exact ⟨fun _ ip hip => Bool.eq_false_iff.mpr (hfind ip hip), fun _ => rfl⟩
  | some ip =>
    simp only [blocked_ne_ok, false_iff]
    intro h
    have hopen := h ip (List.mem_of_find?_eq_some hfind)
    rw [List.find?_some hfind] at hopen
    cases hopen

theorem metadata_find : metadataEndpoints.find? (toLower cm host = ·) = none ↔
    toLower cm host ∉ metadataEndpoints := by
  rw [List.find?_eq_none]
  constructor
  · exact fun h hmem => h _ hmem (decide_eq_true rfl)
  · intro h x hx he
    exact h (of_decide_eq_true he ▸ hx)

theorem accepts_iff : Accepts cm p ips raw host n ↔
    host ≠ "" ∧ if p.allowedHosts ≠ [] then allowedHost cm p host = true
      else p.allowPrivateNetworks = true ∨
        (Outward cm host ∧ PortPermitted n ∧ Clean ips host) := by
  unfold Accepts validateHostPort
  by_cases hempty : host = ""
  · simp [hempty, blocked_ne_ok]
  rw [if_neg hempty]
  by_cases hlist : p.allowedHosts ≠ []
  · rw [if_pos hlist, if_pos hlist, run_pure]
    cases hallowed : allowedHost cm p host <;> simp [hempty, blocked_ne_ok]
  rw [if_neg hlist, if_neg hlist]
  cases hprivate : p.allowPrivateNetworks with
  | true => simp [hempty]
  | false =>
    simp only [Bool.false_eq_true, if_false, false_or, hempty, ne_eq, not_false_eq_true, true_and]
    cases hmeta : metadataEndpoints.find? (toLower cm host = ·) with
    | some endpoint =>
      have hname : ¬ Outward cm host := fun h => by
        rw [metadata_find.mpr h.1] at hmeta
        cases hmeta
      simp [hname, blocked_ne_ok]
    | none =>
      have hname := metadata_find.mp hmeta
      simp only
      by_cases hsuffix : (hasSuffix (toLower cm host) ".internal" ||
          hasSuffix (toLower cm host) ".local") = true
      · have hinternal : ¬ Outward cm host := fun h => by
          rw [h.2.1, h.2.2] at hsuffix
          cases hsuffix
        simp [hsuffix, hinternal, blocked_ne_ok]
      have houtward : Outward cm host := by
        simp only [Bool.or_eq_true, not_or, Bool.not_eq_true] at hsuffix
        exact ⟨hname, hsuffix⟩
      rw [if_neg hsuffix]
      by_cases hport : (decide (n ≠ 0) && !isCommonScanPort n) = true
      · have hrefused : ¬ PortPermitted n := by
          simp only [Bool.and_eq_true, decide_eq_true_eq, Bool.not_eq_true'] at hport
          rintro (h | h)
          · exact hport.1 h
          · rw [hport.2] at h
            cases h
        rw [if_pos hport]
        simp [hrefused, blocked_ne_ok]
      have hpermitted : PortPermitted n := by
        by_contra hrefused
        obtain ⟨hzero, hcommon⟩ := not_or.mp hrefused
        exact hport (by simp [hzero, hcommon])
      rw [if_neg hport]
      simp only [houtward, hpermitted, true_and, Clean, addresses]
      cases hparse : parseIP host with
      | some ip => cases hblocked : isBlockedIP (some ip) <;> simp [hblocked, blocked_ne_ok]
      | none =>
        exact checkAnswer_ok

theorem attempts_dial (network addr : String) (w : List (String × String)) :
    (run (answering ips) (dial network addr) w).2 = w ++ [(network, addr)] := rfl

theorem attempts_iff (h : splitHostPort addr = some (host, port)) :
    Attempts cm p ips network addr ↔
      host ≠ "" ∧ (p.allowedHosts ≠ [] → allowedHost cm p host = true) ∧
        (p.allowPrivateNetworks = true ∨ Reachable ips host) := by
  have hpermit : hostPermitted cm p host = true ↔
      host ≠ "" ∧ (p.allowedHosts ≠ [] → allowedHost cm p host = true) := by
    unfold hostPermitted
    by_cases hempty : host = "" <;> by_cases hlist : p.allowedHosts = [] <;> simp [hempty, hlist]
  unfold Attempts dialContext
  rw [← and_assoc, ← hpermit]
  simp only [h]
  cases hp : hostPermitted cm p host with
  | false => simp
  | true =>
    cases hprivate : p.allowPrivateNetworks with
    | true => simp [attempts_dial]
    | false =>
      simp only [Bool.not_true, Bool.false_eq_true, if_false, true_and, false_or, Reachable,
        addresses]
      cases hparse : parseIP host with
      | some ip => cases hblocked : isBlockedIP (some ip) <;> simp [hblocked, attempts_dial]
      | none =>
        change (run (answering ips) (dialAnswer network host port ips) []).2 ≠ [] ↔ _
        unfold dialAnswer
        cases hfind : ips.find? fun ip => !isBlockedIP ip with
        | none =>
          have hnone : ¬ ∃ ip ∈ ips, isBlockedIP ip = false := by
            rintro ⟨ip, hip, hopen⟩
            exact absurd hopen (by simpa using List.find?_eq_none.mp hfind ip hip)
          simp only [hnone, iff_false]
          split <;> exact fun hne => hne rfl
        | some ip =>
          have hopen := List.find?_some hfind
          rw [Bool.not_eq_true'] at hopen
          simp only [attempts_dial]
          exact ⟨fun _ => ⟨ip, List.mem_of_find?_eq_some hfind, hopen⟩, fun _ => by simp⟩

theorem Clean.reachable (hips : ips ≠ []) (h : Clean ips host) : Reachable ips host := by
  have hne : addresses ips host ≠ [] := by
    unfold addresses
    split
    · simp
    · exact hips
  obtain ⟨ip, rest, he⟩ := List.exists_cons_of_ne_nil hne
  have hmem : ip ∈ addresses ips host := he ▸ List.mem_cons_self
  exact ⟨ip, hmem, h ip hmem⟩

/-- Validation and dialling decide alike exactly if a host on the list of the policy
can be reached at all, and without such a list whatever can be reached has a name
and a port that validation permits and no blocked address beside. -/
theorem decisions_meet (h : splitHostPort addr = some (host, port)) (hips : ips ≠ []) :
    (Accepts cm p ips raw host (atoi port).1 ↔ Attempts cm p ips network addr) ↔
      (host ≠ "" → p.allowPrivateNetworks = false →
        if p.allowedHosts ≠ [] then allowedHost cm p host = true → Reachable ips host
        else Reachable ips host →
          Outward cm host ∧ PortPermitted (atoi port).1 ∧ Clean ips host) := by
  rw [accepts_iff, attempts_iff h]
  have hclean : Clean ips host → Reachable ips host := Clean.reachable hips
  by_cases hlist : p.allowedHosts ≠ []
  · simp only [if_pos hlist]
    cases p.allowPrivateNetworks <;> simp <;> tauto
  · simp only [if_neg hlist]
    cases p.allowPrivateNetworks <;> simp <;> tauto

/-- An answer of one public address. -/
def outside : List (Option IP) := [some ⟨[93, 184, 216, 34], Or.inl rfl⟩]

/-- An answer of one private address. -/
def inside : List (Option IP) := [some ⟨[10, 0, 0, 5], Or.inl rfl⟩]

/-- The restrictive policy, with a list of hosts. -/
def listing (hosts : List String) : TargetPolicy where
  allowLocalPaths := false
  localPathRoots := []
  allowPrivateNetworks := false
  allowedHosts := hosts

/-- Both let a public web server pass. -/
theorem decisions_meet_public :
    Accepts asciiCase (listing []) outside "" "example.org" (atoi "443").1 ↔
      Attempts asciiCase (listing []) outside "tcp" "example.org:443" := by
  refine (decisions_meet (by decide) (by decide)).mpr fun _ _ => ?_
  rw [if_neg (by decide)]
  exact fun _ => ⟨by decide, by decide, by decide⟩

/-- A listed host with a private address passes validation and is not dialled; a
public one on port 25 is dialled and does not pass. -/
theorem decisions_differ :
    ¬ (∀ (cm : CaseMap) (p : TargetPolicy) (ips : List (Option IP))
      (raw host port network addr : String), splitHostPort addr = some (host, port) → ips ≠ [] →
      (Accepts cm p ips raw host (atoi port).1 ↔ Attempts cm p ips network addr)) ∧
    (Accepts asciiCase (listing ["db.example.org"]) inside "" "db.example.org" 443 ∧
      ¬ Attempts asciiCase (listing ["db.example.org"]) inside "tcp" "db.example.org:443") ∧
    (¬ Accepts asciiCase (listing []) outside "" "example.org" 25 ∧
      Attempts asciiCase (listing []) outside "tcp" "example.org:25") := by
  have hlisted : Accepts asciiCase (listing ["db.example.org"]) inside "" "db.example.org" 443 ∧
      ¬ Attempts asciiCase (listing ["db.example.org"]) inside "tcp" "db.example.org:443" := by
    rw [accepts_iff, attempts_iff (by decide :
      splitHostPort "db.example.org:443" = some ("db.example.org", "443"))]
    decide
  refine ⟨fun h => ?_, hlisted, ?_⟩
  · exact hlisted.2 ((h asciiCase (listing ["db.example.org"]) inside "" "db.example.org" "443"
      "tcp" "db.example.org:443" (by decide) (by decide)).mp hlisted.1)
  · rw [accepts_iff, attempts_iff (by decide :
      splitHostPort "example.org:25" = some ("example.org", "25"))]
    decide

end RivicQ.Properties.Agreement
