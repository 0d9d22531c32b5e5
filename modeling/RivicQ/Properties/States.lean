import RivicQ.Authn.Rules
import RivicQ.Lib.Tickets
import RivicQ.Runs.Calls

namespace RivicQ.Properties.States

open RivicQ.Lib.GoStrings RivicQ.Lib.Programs RivicQ.Lib.Pools RivicQ.Lib.Disciplines
open RivicQ.Lib.Tickets RivicQ.Lib.SingleUse RivicQ.Lib.Tables
open RivicQ.Authn.Types RivicQ.Authn.Stores RivicQ.Authn.Environment RivicQ.Authn.Operations
open RivicQ.Authn.Rules RivicQ.Shared.OAuth RivicQ.Runs.Calls RivicQ.Authn

variable (env : Env) (cfg : Config)

/-- A request to one of the handlers of a handshake. -/
inductive Request where
  | login (p : Provider) (edition : Option String)
  | googleCallback (oauthErr code state : String)
  | googleExchange (code state : String)
  | githubCallback (code state userAgent ip : String)

def Request.call : Request → Call
  | .login .google edition => .googleLogin edition
  | .login .github edition => .githubLogin edition
  | .googleCallback oauthErr code state => .googleCallback oauthErr code state
  | .googleExchange code state => .googleExchange code state
  | .githubCallback code state userAgent ip => .githubCallback code state userAgent ip

/-- The state a request presents, and the provider it presents it for. -/
def Request.presented : Request → Option (Provider × String)
  | .login _ _ => none
  | .googleCallback _ _ state | .googleExchange _ state => some (.google, state)
  | .githubCallback _ state _ _ => some (.github, state)

/-- The requests of a process that has just started, none of them begun. -/
def attempts (rs : List Request) (st : Store) : Pool Calls World (Except Err Answer) :=
  together env cfg (rs.map Request.call) (start st)

theorem lookup_states_set (w : World) (t : Table String) (p q : Provider) (state : String) :
    ((w.tick.setStates t p).states q).lookup state =
      if q = p then t.lookup state else (w.states q).lookup state := by
  cases p <;> cases q <;> rfl

/-- A state in the map of a provider. -/
def ticket (p : Provider) (state : String) : Ticket (handle env) where
  Held w := ((w.states p).lookup state).isSome
  issues
    | .putState q s _ => q = p && s = state
    | _ => false
  finds
    | .lookupState q s, r => q = p && s = state && Option.isSome r
    | _, _ => false
  takes
    | .deleteState q s => q = p && s = state
    | _ => false
  yields_of_finds := fun {o r} hfinds => by
    cases o with
    | lookupState q s => rfl
    | _ => cases hfinds
  yields_of_takes := fun {o} htakes => by
    cases o with
    | deleteState q s => rfl
    | _ => cases htakes
  held_of_local := fun {o w} hy hheld => by
    cases o with
    | now | newOpaqueToken | newUUID | hashPassword _ | generateTOTP _ | validateTOTP _ _
    | generateOAuthState => exact hheld
    | _ => cases hy
  held_of_not_issues := fun {o w} hissues hheld => by
    cases o with
    | putState q s edition =>
      have hne : ¬ (q = p ∧ s = state) := by simpa using hissues
      simp only [handle, lookup_states_set, lookup_insert_if] at hheld
      split_ifs at hheld with hp hs
      · exact absurd ⟨hp.symm, hs.symm⟩ hne
      · exact hp ▸ hheld
      · exact hheld
    | deleteState q s =>
      simp only [handle, lookup_states_set, lookup_erase_if] at hheld
      split_ifs at hheld with hp hs
      · cases hheld
      · exact hp ▸ hheld
      · exact hheld
    | _ => exact hheld
  held_of_finds := fun {o w} hfinds => by
    cases o with
    | lookupState q s =>
      simp only [handle, Bool.and_eq_true, decide_eq_true_eq] at hfinds
      obtain ⟨⟨rfl, rfl⟩, hfound⟩ := hfinds
      exact hfound
    | _ => cases hfinds
  not_held_of_takes := fun {o w} htakes => by
    cases o with
    | deleteState q s =>
      simp only [Bool.and_eq_true, decide_eq_true_eq] at htakes
      obtain ⟨rfl, rfl⟩ := htakes
      simp [handle, lookup_states_set]
    | _ => cases htakes

/-- Requests that have nothing to do with the states. -/
def Quiet : Op → Prop
  | .putState _ _ _ | .lookupState _ _ | .deleteState _ _ => False
  | _ => True

variable {env cfg} {α β : Type}

theorem uses_ensureExternalUser (email name organisation : String) :
    Uses (S := Calls) Quiet (ensureExternalUser env cfg email name organisation) := by
  unfold ensureExternalUser
  extract_lets email
  split
  · exact uses_pure _
  split
  · exact uses_pure _
  refine uses_ask trivial fun found => ?_
  cases found with
  | ok existing =>
    simp only [Program.pure_bind]
    split <;> exact uses_pure _
  | error e =>
    refine uses_orReturn (uses_ask trivial uses_pure) fun raw => ?_
    refine uses_orReturn (uses_ask trivial uses_pure) fun hash => ?_
    refine uses_ask trivial fun id => uses_ask trivial fun created => ?_
    cases created with
    | ok _ => exact uses_pure _
    | error e =>
      simp only [Program.pure_bind]
      split
      · exact uses_ask trivial uses_pure
      · exact uses_pure _

theorem uses_issueTokens (u : User) (edition userAgent ip : String) :
    Uses (S := Calls) Quiet (issueTokens env cfg u edition userAgent ip) := by
  refine uses_ask trivial fun issuedAt => ?_
  refine uses_orReturn (uses_ask trivial uses_pure) fun raw => ?_
  refine uses_ask trivial fun id => ?_
  refine uses_orReturn (uses_ask trivial uses_pure) fun _ => ?_
  exact uses_orReturn (uses_ask trivial fun _ => uses_pure _) fun _ => uses_pure _

/-- What is left of a handshake once the user is known. -/
theorem uses_signIn (email name requested userAgent ip : String) (e e' : Err)
    (edition : User → String) :
    Uses (S := Calls) Quiet
      (orFail (ensureExternalUser env cfg email name "") e fun user =>
        orFail (issueTokens env cfg user requested userAgent ip) e' fun pair =>
        done (⟨pair, edition user, user⟩ : Completion)) :=
  uses_orFail (uses_ensureExternalUser _ _ _) fun user =>
    uses_orFail (uses_issueTokens user _ _ _) fun _ => uses_pure _

variable {p : Provider} {state : String}

theorem begins_quiet {q : Program Calls α} (hq : Uses (S := Calls) Quiet q) :
    Begins (ticket env p state) q := by
  refine begins_of_uses (fun o ho => ?_) hq
  cases o with
  | putState _ _ _ | lookupState _ _ | deleteState _ _ => exact ho.elim
  | _ => exact ⟨rfl, fun _ => rfl⟩

/-- A program that looks a state up, and deletes it at once if it is there. -/
theorem begins_lookup {q : Provider} {s : String} {refusal : Prog α} {k : String → Prog α}
    (hrefusal : Uses (S := Calls) Quiet refusal)
    (hk : ∀ edition, Uses (S := Calls) Quiet (k edition)) :
    Begins (ticket env p state) (lookupState q s fun found =>
      match found with
      | none => refusal
      | some edition => deleteState q s fun _ => k edition) := by
  refine ⟨presents_request.mpr fun found => ?_, by simp [Taking, ticket, lookupState]⟩
  cases found with
  | none => exact ⟨iff_of_false (begins_quiet hrefusal).2 (by simp [ticket]),
      (begins_quiet hrefusal).1⟩
  | some edition =>
    refine ⟨by simp [Taking, ticket, deleteState], presents_request.mpr fun _ => ?_⟩
    exact ⟨iff_of_false (begins_quiet (hk edition)).2 (by simp [ticket]), (begins_quiet (hk edition)).1⟩

variable (env cfg) in
/-- What the callback of a provider goes on with once the state is found and deleted. -/
theorem completeGoogleOAuth_eq (code state : String) :
    ∃ k : String → Prog Completion, (∀ edition, Uses (S := Calls) Quiet (k edition)) ∧
      completeGoogleOAuth env cfg code state = lookupState .google state fun found =>
        match found with
        | none => fail (.text "invalid state parameter")
        | some edition => deleteState .google state fun _ => k edition := by
  refine ⟨_, fun edition => ?_, rfl⟩
  refine uses_orFail (uses_ask trivial uses_pure) fun token => ?_
  refine uses_orFail (uses_ask trivial uses_pure) fun body => ?_
  cases env.decodeGoogleUser body with
  | error e => exact uses_pure _
  | ok googleUser =>
    simp only
    split
    · exact uses_pure _
    split
    · exact uses_pure _
    exact uses_signIn _ _ _ _ _ _ _ _

theorem uses_githubEmail {token : String} {ghUser : GitHubUser} {k : String → Prog β}
    (hk : ∀ email, Uses (S := Calls) Quiet (k email)) :
    Uses (S := Calls) Quiet (githubEmail env token ghUser k) := by
  unfold githubEmail
  split
  · exact hk _
  refine uses_ask trivial fun answer => ?_
  cases answer with
  | error e => exact hk _
  | ok body =>
    simp only [Program.pure_bind]
    split
    · exact hk _
    · exact hk _

variable (env cfg) in
theorem githubCallback_eq (code state userAgent ip : String) :
    ∃ k : String → Prog Completion, (∀ edition, Uses (S := Calls) Quiet (k edition)) ∧
      githubCallback env cfg code state userAgent ip =
        if !env.configured .github then fail (.http 502 "GitHub OAuth not configured")
        else if state = "" ∨ code = "" then fail (.http 400 "Missing state or code")
        else lookupState .github state fun found =>
          match found with
          | none => fail (.http 403 "Invalid state parameter")
          | some edition => deleteState .github state fun _ => k edition := by
  refine ⟨_, fun edition => ?_, rfl⟩
  refine uses_orFail (uses_ask trivial uses_pure) fun token => ?_
  refine uses_orFail (uses_ask trivial uses_pure) fun body => ?_
  cases env.decodeGitHubUser body with
  | error e => exact uses_pure _
  | ok ghUser =>
    refine uses_githubEmail fun email => ?_
    split
    · exact uses_pure _
    split
    · exact uses_pure _
    exact uses_signIn _ _ _ _ _ _ _ _

theorem begins_answering {f : α → Answer} {q : Prog α} (hq : Begins (ticket env p state) q) :
    Begins (ticket env p state) (answering f q) := by
  refine begins_bind hq fun r => ?_
  cases r <;> exact begins_pure _ _

theorem begins_answered {q : Prog α} {failure : Err → Err} (hq : Begins (ticket env p state) q) :
    Begins (ticket env p state) (answered q failure) := by
  refine begins_bind hq fun r => ?_
  cases r <;> exact begins_pure _ _

theorem begins_loginHandler (q : Provider) (notConfigured edition : String) :
    Begins (ticket env p state) (loginHandler env q notConfigured edition) := by
  unfold loginHandler
  split
  · exact begins_pure _ _
  refine ⟨presents_request.mpr fun drawn => ⟨iff_of_false ?_ ?_, presents_request.mpr fun _ => ?_⟩,
    by simp [Taking, ticket, generateState]⟩
  · simp [Taking, ticket, putState]
  · simp [ticket]
  · exact ⟨iff_of_false id (by simp [ticket]), presents_pure _ _⟩

theorem begins_googleHandler (missing code s : String) :
    Begins (ticket env p state) (googleHandler env cfg missing code s) := by
  unfold googleHandler
  split
  · exact begins_pure _ _
  split
  · exact begins_pure _ _
  obtain ⟨k, hk, heq⟩ := completeGoogleOAuth_eq env cfg code s
  rw [heq]
  exact begins_answered (begins_lookup (uses_pure _) hk)

theorem begins_program (r : Request) : Begins (ticket env p state) (program env cfg r.call) := by
  cases r with
  | login q edition => cases q <;> exact begins_answering (begins_loginHandler _ _ _)
  | googleCallback oauthErr code s =>
    refine begins_answering ?_
    unfold googleCallback
    split
    · exact begins_pure _ _
    · exact begins_googleHandler _ _ _
  | googleExchange code s => exact begins_answering (begins_googleHandler _ _ _)
  | githubCallback code s userAgent ip =>
    refine begins_answering ?_
    obtain ⟨k, hk, heq⟩ := githubCallback_eq env cfg code s userAgent ip
    rw [heq]
    split
    · exact begins_pure _ _
    split
    · exact begins_pure _ _
    exact begins_lookup (uses_pure _) hk

/-- A request is turned away: with an error of the provider, for lack of a state or a code, for its
state, or since there is nothing to sign in with. -/
def Refused (r : Except Err Answer) : Prop :=
  ∃ status ∈ [307, 400, 403, 502], ∃ message, r = .error (.http status message)

/-- A handshake that does not find its state ends in a refusal. -/
abbrev Refuses (env : Env) (p : Provider) (state : String) : Program Calls (Except Err Answer) → Prop :=
  Until (fun o r => (ticket env p state).finds o r = true) Refused

theorem refuses_error {status : Nat} (hstatus : status ∈ [307, 400, 403, 502]) (message : String)
    {f : α → Answer} : Refuses env p state (answering f (fail (.http status message) : Prog α)) :=
  until_pure.mpr ⟨status, hstatus, message, rfl⟩

theorem refuses_googleHandler (missing code state : String) :
    Refuses env .google state (answering .completed (googleHandler env cfg missing code state)) := by
  unfold googleHandler
  split
  · exact refuses_error (by decide) _
  split
  · exact refuses_error (by decide) _
  refine until_request.mpr fun found => ?_
  cases found with
  | none => exact .inr (until_pure.mpr ⟨403, by decide, _, rfl⟩)
  | some edition => exact .inl (by simp [ticket])

theorem refuses_program {r : Request} (hr : r.presented = some (p, state)) :
    Refuses env p state (program env cfg r.call) := by
  cases r with
  | login q edition => cases hr
  | googleCallback oauthErr code s =>
    obtain ⟨rfl, rfl⟩ : Provider.google = p ∧ s = state := by simpa [Request.presented] using hr
    simp only [Request.call, program, googleCallback]
    split
    · exact refuses_error (by decide) _
    · exact refuses_googleHandler _ _ _
  | googleExchange code s =>
    obtain ⟨rfl, rfl⟩ : Provider.google = p ∧ s = state := by simpa [Request.presented] using hr
    exact refuses_googleHandler _ _ _
  | githubCallback code s userAgent ip =>
    obtain ⟨rfl, rfl⟩ : Provider.github = p ∧ s = state := by simpa [Request.presented] using hr
    simp only [Request.call, program, githubCallback]
    split
    · exact refuses_error (by decide) _
    split
    · exact refuses_error (by decide) _
    refine until_request.mpr fun found => ?_
    cases found with
    | none => exact .inr (until_pure.mpr ⟨403, by decide, _, rfl⟩)
    | some edition => exact .inl (by simp [ticket])

/-- Whether a request puts a state into one of the maps. -/
def puts (state : String) : Op → Bool
  | .putState _ s _ => s = state
  | _ => false

/-- A program that puts no state. -/
abbrev Silent (q : Program Calls α) : Prop :=
  Uses (S := Calls) (fun o => ∀ state, puts state o = false) q

/-- A program that puts at most the state it has just drawn. -/
def Issuing (q : Program Calls α) : Prop :=
  (∃ p edition, ∃ k : String → Unit → Program Calls α, (∀ s u, Silent (k s u)) ∧
    q = .request Op.generateOAuthState fun s => .request (Op.putState p s edition) (k s)) ∨
  Silent q

theorem silent_of_quiet {q : Program Calls α} (hq : Uses (S := Calls) Quiet q) :
    Silent q :=
  uses_mono (fun o ho state => by cases o <;> first | exact ho.elim | rfl) hq

theorem silent_answering {f : α → Answer} {q : Prog α}
    (hq : Silent q) : Silent (answering f q) := by
  refine uses_bind hq fun r => ?_
  cases r <;> exact uses_pure _

theorem silent_lookup {q : Provider} {s : String} {refusal : Prog α} {k : String → Prog α}
    (hrefusal : Uses (S := Calls) Quiet refusal)
    (hk : ∀ edition, Uses (S := Calls) Quiet (k edition)) :
    Silent (lookupState q s fun found =>
      match found with
      | none => refusal
      | some edition => deleteState q s fun _ => k edition) := by
  refine uses_request.mpr ⟨fun _ => rfl, fun found => ?_⟩
  cases found with
  | none => exact silent_of_quiet hrefusal
  | some edition => exact uses_request.mpr ⟨fun _ => rfl, fun _ => silent_of_quiet (hk edition)⟩

theorem silent_googleHandler (missing code s : String) :
    Silent (googleHandler env cfg missing code s) := by
  unfold googleHandler
  split
  · exact uses_pure _
  split
  · exact uses_pure _
  obtain ⟨k, hk, heq⟩ := completeGoogleOAuth_eq env cfg code s
  rw [heq]
  refine uses_bind (silent_lookup (uses_pure _) hk) fun r => ?_
  cases r <;> exact uses_pure _

theorem issuing_loginHandler (p : Provider) (notConfigured edition : String) :
    Issuing (answering .state (loginHandler env p notConfigured edition)) := by
  unfold loginHandler
  split
  · exact .inr (uses_pure _)
  · exact .inl ⟨p, normalizeAuthEdition env.cases edition, _, fun _ _ => uses_pure _, rfl⟩

theorem issuing_program (r : Request) : Issuing (program env cfg r.call) := by
  cases r with
  | login q edition => cases q <;> exact issuing_loginHandler _ _ _
  | googleCallback oauthErr code s =>
    refine .inr (silent_answering ?_)
    unfold googleCallback
    split
    · exact uses_pure _
    · exact silent_googleHandler _ _ _
  | googleExchange code s => exact .inr (silent_answering (silent_googleHandler _ _ _))
  | githubCallback code s userAgent ip =>
    refine .inr (silent_answering ?_)
    obtain ⟨k, hk, heq⟩ := githubCallback_eq env cfg code s userAgent ip
    rw [heq]
    split
    · exact uses_pure _
    split
    · exact uses_pure _
    exact silent_lookup (uses_pure _) hk

theorem issuing_slice {q : Program Calls α} (hq : Issuing q) (w : World) :
    Issuing (slice (handle env) q w).1 := by
  obtain ⟨p, edition, k, hk, rfl⟩ | hq := hq
  · exact .inr (hk _ _)
  · exact .inr (uses_slice w hq)

theorem ticks_handle (o : Op) (w : World) : w.ticks ≤ (handle env o w).2.ticks := by
  cases o with
  | store o => exact Nat.le_add_right _ 2
  | putState p _ _ | deleteState p _ => cases p <;> exact Nat.le_add_right _ 1
  | _ => exact Nat.le_add_right _ 1

theorem ticks_step (c : Pool Calls World α) (i : Nat) :
    c.world.ticks ≤ (c.step (handle env) i).world.ticks := by
  cases hp : c.threads[i]? with
  | none => rw [Pool.step_of_none _ hp]
  | some p =>
    rw [Pool.step_of_some _ hp]
    exact slice_keeps (h := handle env) (I := fun w => c.world.ticks ≤ w.ticks)
      (fun o w _ hw => hw.trans (ticks_handle o w)) (fun o w _ hw => hw.trans (ticks_handle o w))
      (Nat.le_refl _)

/-- A state that is put was drawn at this point of the run. -/
theorem drawn_of_puts {c : Pool Calls World α} (hc : ∀ q ∈ c.threads, Issuing q) {i : Nat}
    {e : Op × World} (he : e ∈ c.event (handle env) i) (hputs : puts state e.1 = true) :
    state = generateOAuthState env c.world.ticks ∧
      c.world.ticks < (c.step (handle env) i).world.ticks := by
  obtain ⟨q, hq, hperformed⟩ := Option.bind_eq_some_iff.mp he
  rw [Pool.step_of_some _ hq]
  obtain ⟨p, edition, k, -, rfl⟩ | hq := hc q (List.mem_of_getElem? hq)
  · obtain rfl : (Op.putState p (generateOAuthState env c.world.ticks) edition, c.world.tick) = e :=
      Option.some.inj hperformed
    refine ⟨(of_decide_eq_true hputs).symm, ?_⟩
    change c.world.ticks < World.ticks (World.setStates _ _ p)
    cases p <;> exact Nat.lt_add_of_pos_right (by decide : 0 < 2)
  · rw [uses_performed hq hperformed] at hputs
    cases hputs

/-- No two draws of the random source agree. -/
def Random (env : Env) : Prop :=
  ∀ {m n state}, env.randomHex m = .ok state → env.randomHex n = .ok state → m = n

/-- A state other than the fallback is issued at most once. -/
theorem issued_once (hrandom : Random env) (hstate : state ≠ "oauth-state-fallback")
    (sched : List Nat) {c : Pool Calls World α} (hc : ∀ q ∈ c.threads, Issuing q) :
    tally (handle env) (fun o _ => puts state o) c sched ≤ 1 ∧
      ((∃ m < c.world.ticks, env.randomHex m = .ok state) →
        tally (handle env) (fun o _ => puts state o) c sched = 0) := by
  induction sched generalizing c with
  | nil => exact ⟨Nat.zero_le _, fun _ => rfl⟩
  | cons i sched ih =>
    have hstep : ∀ q ∈ (c.step (handle env) i).threads, Issuing q := by
      intro q hq
      obtain ⟨j, hj⟩ := List.mem_iff_getElem?.mp hq
      obtain ⟨_, hq⟩ | ⟨p, rfl, hp, rfl⟩ := Pool.threads_step _ c i j q hj
      · exact hc q (List.mem_of_getElem? hq)
      · exact issuing_slice (hc p (List.mem_of_getElem? hp)) _
    obtain ⟨hle, hzero⟩ := ih hstep
    simp only [tally]
    by_cases hputs : ∃ e ∈ c.event (handle env) i, puts state e.1 = true
    · obtain ⟨e, he, hputs⟩ := hputs
      obtain ⟨hdrawn, hticks⟩ := drawn_of_puts hc he hputs
      have hrandomHex : env.randomHex c.world.ticks = .ok state := by
        unfold generateOAuthState at hdrawn
        cases hr : env.randomHex c.world.ticks with
        | error e => exact absurd (by simpa [hr] using hdrawn) hstate
        | ok raw => rw [hdrawn, hr]
      rw [Option.mem_def.mp he, Option.elim_some, hputs, hzero ⟨_, hticks, hrandomHex⟩]
      refine ⟨Nat.le_refl 1, ?_⟩
      rintro ⟨m, hm, hagain⟩
      exact absurd (hrandom hagain hrandomHex) (Nat.ne_of_lt hm)
    · have hnone : ((c.event (handle env) i).elim 0 fun e => (puts state e.1).toNat) = 0 := by
        cases he : c.event (handle env) i with
        | none => rfl
        | some e =>
          have hfalse : puts state e.1 = false := Bool.eq_false_iff.mpr fun h => hputs ⟨e, he, h⟩
          rw [Option.elim_some, hfalse, Bool.toNat_false]
      rw [hnone, Nat.zero_add]
      refine ⟨hle, ?_⟩
      rintro ⟨m, hm, hr⟩
      exact hzero ⟨m, Nat.lt_of_lt_of_le hm (ticks_step c i), hr⟩

/-- Whether a request gets past the state check with a state. -/
def passes (state : String) (o : Op) (w : World) : Bool :=
  match o with
  | .lookupState p s => s = state && ((w.states p).lookup s).isSome
  | _ => false

/-- A state is not found while another request, which has found it, is about to delete it. -/
def Apart (env : Env) (c : Pool Calls World α) (o : Op) (w : World) : Prop :=
  match o with
  | .lookupState p s => ((w.states p).lookup s).isSome = true →
    ∀ q ∈ c.threads, ¬ Taking (ticket env p s) q
  | _ => True

instance (c : Pool Calls World α) (o : Op) (w : World) : Decidable (Apart env c o w) :=
  match o with
  | .lookupState p s => inferInstanceAs (Decidable (((w.states p).lookup s).isSome = true →
    ∀ q ∈ c.threads, ¬ Taking (ticket env p s) q))
  | .store _ | .now | .newOpaqueToken | .newUUID | .hashPassword _ | .generateTOTP _
  | .validateTOTP _ _ | .generateOAuthState | .putState _ _ _ | .deleteState _ _ | .exchange _ _
  | .get _ _ => isTrue trivial

theorem apart_iff (c : Pool Calls World α) (o : Op) (w : World) :
    Apart env c o w ↔
      ∀ x : Provider × String, Lib.Tickets.Apart (ticket env x.1 x.2) c o w := by
  cases o with
  | lookupState p s =>
    constructor
    · rintro h ⟨q, state⟩ hfinds
      simp only [ticket, handle, Bool.and_eq_true, decide_eq_true_eq] at hfinds
      obtain ⟨⟨rfl, rfl⟩, hfound⟩ := hfinds
      exact h hfound
    · exact fun h hfound => h (p, s) (by simpa [ticket, handle] using hfound)
  | _ => exact iff_of_true trivial fun x hfinds => absurd hfinds Bool.false_ne_true

theorem passed_eq (state : String) (sched : List Nat) (c : Pool Calls World α) :
    tally (handle env) (passes state) c sched =
      found (ticket env .google state) c sched + found (ticket env .github state) c sched := by
  refine tally_add (fun o w => ?_) sched c
  cases o with
  | lookupState p s => cases p <;> simp [passes, ticket, handle]
  | _ => rfl

theorem put_eq (state : String) (sched : List Nat) (c : Pool Calls World α) :
    tally (handle env) (fun o _ => puts state o) c sched =
      issued (ticket env .google state) c sched + issued (ticket env .github state) c sched := by
  refine tally_add (fun o w => ?_) sched c
  cases o with
  | putState p s edition => cases p <;> simp [puts, ticket]
  | _ => rfl

section Attempts

variable (rs : List Request) (st : Store)

theorem mem_attempts {q : Program Calls (Except Err Answer)}
    (hq : q ∈ (attempts env cfg rs st).threads) : ∃ r, q = program env cfg (Request.call r) := by
  obtain ⟨call, hcall, rfl⟩ := List.mem_map.mp hq
  obtain ⟨r, _, rfl⟩ := List.mem_map.mp hcall
  exact ⟨r, rfl⟩

theorem presents_attempts : ∀ q ∈ (attempts env cfg rs st).threads,
    Presents (ticket env p state) q := by
  intro q hq
  obtain ⟨r, rfl⟩ := mem_attempts rs st hq
  exact (begins_program r).1

theorem not_contended_attempts : ¬ Contended (ticket env p state) (attempts env cfg rs st) := by
  rintro ⟨q, hq, htaking⟩
  obtain ⟨r, rfl⟩ := mem_attempts rs st hq
  exact (begins_program r).2 htaking

theorem not_held_attempts : ¬ (ticket env p state).Held (attempts env cfg rs st).world := by
  cases p <;> exact Bool.false_ne_true

/-- Where no two logins are left with the fallback, each state lets at most one request past in
exactly the runs in which no state is found between another request's look at it and its deletion.
A request whose state was never issued is refused in every run. -/
theorem states_used_once (hrandom : Random env) (sched : List Nat)
    (hfallback : tally (handle env) (fun o _ => puts "oauth-state-fallback" o)
      (attempts env cfg rs st) sched ≤ 1) :
    ((∀ state, tally (handle env) (passes state) (attempts env cfg rs st) sched ≤ 1) ↔
      (attempts env cfg rs st).Along (handle env) (Apart env) sched) ∧
    ∀ i r p state, rs[i]? = some r → r.presented = some (p, state) →
      issued (ticket env p state) (attempts env cfg rs st) sched = 0 →
      ∀ a, ((attempts env cfg rs st).run (handle env) sched).returned i = some a → Refused a := by
  have hissued : ∀ state, tally (handle env) (fun o _ => puts state o)
      (attempts env cfg rs st) sched ≤ 1 := by
    intro state
    by_cases hstate : state = "oauth-state-fallback"
    · exact hstate ▸ hfallback
    · refine (issued_once hrandom hstate sched fun q hq => ?_).1
      obtain ⟨r, rfl⟩ := mem_attempts rs st hq
      exact issuing_program r
  refine ⟨?_, fun i r p state hr hpresented hnever a ha => ?_⟩
  · have hsame : Apart env (α := Except Err Answer) =
        fun c o w => ∀ x : Provider × String, Lib.Tickets.Apart (ticket env x.1 x.2) c o w := by
      funext c o w
      exact propext (apart_iff c o w)
    rw [hsame, Pool.along_forall]
    constructor
    · rintro honce ⟨p, state⟩
      by_contra hnot
      have htwo := (found_twice sched (presents_attempts rs st) hnot).2
        (not_contended_attempts rs st)
      have hle := honce state
      rw [passed_eq] at hle
      cases p <;> simp only at htwo <;> omega
    · intro hapart state
      have hfree : ∀ p, found (ticket env p state) (attempts env cfg rs st) sched ≤
          issued (ticket env p state) (attempts env cfg rs st) sched := fun p =>
        (found_le sched (presents_attempts rs st) (hapart (p, state))).2 fun h =>
          not_held_attempts rs st h.1
      calc tally (handle env) (passes state) (attempts env cfg rs st) sched
          = _ := passed_eq state sched _
        _ ≤ issued (ticket env .google state) (attempts env cfg rs st) sched +
            issued (ticket env .github state) (attempts env cfg rs st) sched :=
          Nat.add_le_add (hfree .google) (hfree .github)
        _ = _ := (put_eq state sched _).symm
        _ ≤ 1 := hissued state
  · have hrefuses : ∀ q, (attempts env cfg rs st).threads[i]? = some q → Refuses env p state q := by
      intro q hq
      have hthread : (attempts env cfg rs st).threads[i]? = some (program env cfg r.call) := by
        simp only [attempts, together, List.getElem?_map, hr, Option.map_some]
      obtain rfl := Option.some.inj (hthread.symm.trans hq)
      exact refuses_program hpresented
    exact returned_fails (fun o r => (ticket env p state).yields_of_finds) sched hrefuses
      (not_found sched (not_held_attempts rs st) hnever) ha

end Attempts

theorem random_plain : Random plain := by
  intro m n state hm hn
  have hlength := congrArg (fun s => s.toList.length)
    (Except.ok.inj (hm.trans hn.symm) : String.ofList _ = String.ofList _)
  simpa using hlength

/-- A login, and two callbacks with its state. -/
def twoCallbacks : List Request :=
  [.login .google none, .googleCallback "" "ada@example.org" "a",
    .googleCallback "" "ada@example.org" "a"]

/-- One callback after the other. -/
def inTurn : List Nat := [0, 1, 1, 2]

theorem states_used_once_in_turn : Random plain ∧
    tally (handle plain) (fun o _ => puts "oauth-state-fallback" o)
      (attempts plain demoConfig twoCallbacks (.memory Memory.empty)) inTurn ≤ 1 ∧
    ((∀ state, tally (handle plain) (passes state)
        (attempts plain demoConfig twoCallbacks (.memory Memory.empty)) inTurn ≤ 1) ↔
      (attempts plain demoConfig twoCallbacks (.memory Memory.empty)).Along (handle plain)
        (Apart plain) inTurn) ∧
    (attempts plain demoConfig twoCallbacks (.memory Memory.empty)).Along (handle plain)
      (Apart plain) inTurn :=
  have hfallback : tally (handle plain) (fun o _ => puts "oauth-state-fallback" o)
      (attempts plain demoConfig twoCallbacks (.memory Memory.empty)) inTurn ≤ 1 := by decide
  ⟨random_plain, hfallback,
    (states_used_once twoCallbacks (.memory Memory.empty) random_plain inTurn hfallback).1,
    by decide⟩

/-- Two callbacks that look the state up before either of them deletes it both get past. -/
theorem state_passes_two : ¬ ∀ (env : Env) (cfg : Config) (rs : List Request) (st : Store),
    Random env → ∀ sched state,
      tally (handle env) (passes state) (attempts env cfg rs st) sched ≤ 1 := by
  intro h
  have hle := h plain demoConfig twoCallbacks (.memory Memory.empty) random_plain [0, 1, 2] "a"
  exact absurd hle (by decide)

end RivicQ.Properties.States
