import RivicQ.Runs.Conduct
import RivicQ.Runs.Handshakes

namespace RivicQ.Properties.SecondFactor

open RivicQ.Lib.GoStrings RivicQ.Lib.Programs RivicQ.Authn.Types RivicQ.Authn.Records
open RivicQ.Authn.Stores RivicQ.Authn.Environment RivicQ.Authn.Operations RivicQ.Authn.Worlds
open RivicQ.Authn.Rules RivicQ.Runs.Calls RivicQ.Runs.Conduct RivicQ.Runs.Alone
open RivicQ.Runs.Outcomes RivicQ.Runs.Handshakes

variable {α : Type} {env : Env} {cfg : Config} {w : World}

def PresentsCode (env : Env) (code : String) (u : User) : Prop :=
  trimSpace u.mfaSecret ≠ "" ∧
    ∃ n, env.totpValidate (env.clock n) (trimSpace code) u.mfaSecret = true

/-- The account has an address that the provider vouches for. -/
def Vouched (env : Env) (P : String → Prop) (u : User) : Prop :=
  ∃ email, P email ∧ normalizeEmail env.cases u.email = normalizeEmail env.cases email

/-- What entitles a call to tokens for an account with a second factor. The
service trusts demo mode and the identity providers in its place. -/
def Warrant (env : Env) (cfg : Config) (w : World) (u : User) : Call → Prop
  | .verifyMFA _ code _ _ => PresentsCode env code u
  | .demoLogin _ _ =>
    cfg.demoMode = true ∧ w.store.userByEmail env.cases "operator@rivicq.com" = .ok u
  | .googleCallback _ code _ | .googleExchange code _ => Vouched env (VouchedByGoogle env code) u
  | .githubCallback code _ _ _ => Vouched env (VouchedByGitHub env code) u
  | .refresh _ _ _ | .issueTokens _ _ _ _ => True
  | _ => False

theorem not_issued {c : Call} {f : α → Answer} {p : Prog α}
    (hc : program env cfg c = answering f p) (hf : ∀ a, (f a).pair = none) {pair : TokenPair} :
    pairOf (outcome env cfg c w) ≠ some pair := by
  unfold outcome
  rw [hc]
  unfold answering orReturn
  rw [run_bind]
  cases (run (handle env) p w).1 with
  | error e => intro h; cases h
  | ok a =>
    intro h
    have hnone := hf a
    rw [show (f a).pair = some pair from h] at hnone
    cases hnone

theorem stored_of_issuedFor {u v : User} {pair : TokenPair} {w' : World}
    (h : IssuedFor w u pair w') (hv : w'.ledger.user pair.user.id = some v) : v = u := by
  rw [h.users, h.pair] at hv
  exact Option.some.inj (hv.symm.trans h.stored)

/-- Tokens for an account with a second factor, other than by a refresh, need an
accepted code or one of the two deliberate exemptions. -/
theorem second_factor (hf : Fresh env) (hw : Reachable env cfg w) (c : Call) {pair : TokenPair}
    (hpair : pairOf (outcome env cfg c w) = some pair) {u : User}
    (hu : (after env cfg c w).ledger.user pair.user.id = some u) (hm : u.mfaEnabled = true) :
    Warrant env cfg w u c := by
  have hsound := reachable_sound hf cfg hw
  obtain ⟨a, h, hp⟩ := ok_of_pairOf hpair
  cases c with
  | login email password edition userAgent ip =>
    obtain ⟨res, rfl, hres⟩ := after_delivers (c := .login email password edition userAgent ip)
      (by rfl) hsound (delivers_login hf hsound email password edition userAgent ip) h
    cases res with
    | mfaRequired user mfaSession => cases hp
    | tokens pair' =>
      cases hp
      obtain ⟨u', _, hoff, hissued⟩ := hres pair rfl
      rw [stored_of_issuedFor hissued hu, hoff] at hm
      cases hm
  | verifyMFA mfaSession code userAgent ip =>
    obtain ⟨pair', rfl, tok, u', _, hsecret, hcode, hissued⟩ :=
      after_delivers (c := .verifyMFA mfaSession code userAgent ip) (by rfl) hsound
        (delivers_verifyMFA hf hsound mfaSession code userAgent ip) h
    cases hp
    rw [stored_of_issuedFor hissued hu]
    exact ⟨hsecret, hcode⟩
  | demoLogin userAgent ip =>
    obtain ⟨pair', rfl, hdemo, u', hu', hissued⟩ := after_delivers (c := .demoLogin userAgent ip)
      (by rfl) hsound (delivers_demoLogin hf hsound userAgent ip) h
    cases hp
    rw [stored_of_issuedFor hissued hu]
    exact ⟨hdemo, hu'⟩
  | googleCallback oauthErr code state =>
    obtain ⟨completion, rfl, hvouched⟩ := after_delivers (c := .googleCallback oauthErr code state)
      (by rfl) hsound (delivers_googleCallback hf hsound oauthErr code state) h
    cases hp
    exact hvouched u hu hm
  | googleExchange code state =>
    obtain ⟨completion, rfl, hvouched⟩ := after_delivers (c := .googleExchange code state)
      (by rfl) hsound (delivers_googleHandler hf hsound _ code state) h
    cases hp
    exact hvouched u hu hm
  | githubCallback code state userAgent ip =>
    obtain ⟨completion, rfl, hvouched⟩ :=
      after_delivers (c := .githubCallback code state userAgent ip) (by rfl) hsound
        (delivers_githubCallback hf hsound code state userAgent ip) h
    cases hp
    exact hvouched u hu hm
  | refresh => trivial
  | issueTokens => trivial
  | _ => exact absurd hpair (not_issued rfl fun _ => rfl)

/-- A sign-in with a password and a code. -/
theorem second_factor_presented : ∃ u, (after plain demoConfig codeGiven (demo challenged)).ledger.user
    "00" = some u ∧ PresentsCode plain "SSSSSSS" u := by
  obtain ⟨pair, hpair⟩ := Option.isSome_iff_exists.mp (by decide +kernel :
    (pairOf (outcome plain demoConfig codeGiven (demo challenged))).isSome = true)
  have hid : ∀ pair ∈ pairOf (outcome plain demoConfig codeGiven (demo challenged)),
      pair.user.id = "00" := by decide +kernel
  have hstored : ∃ u ∈ (after plain demoConfig codeGiven (demo challenged)).ledger.user "00",
      u.mfaEnabled = true := by decide +kernel
  obtain ⟨u, hu, hm⟩ := hstored
  exact ⟨u, hu, second_factor fresh_plain (reachable_demo challenged) codeGiven hpair
    (by rw [hid pair hpair]; exact hu) hm⟩

/-- The code a call presents. -/
def presented : Call → Option String
  | .verifyMFA _ code _ _ => some code
  | _ => none

/-- The account has its second factor enabled and signs in with Google. -/
def handshake : List Call := enrolled ++ [.googleLogin none]

def completed : Call := .googleCallback "" "ada@example.org" "aaaaaaaaaaaaaaa"

/-- Google's word for the address is enough, no code is asked for. -/
theorem google_skips_code : ¬ ∀ (w : World) (c : Call) (pair : TokenPair) (u : User),
    Reachable plain demoConfig w → (∀ refreshToken userAgent ip, c ≠ .refresh refreshToken userAgent ip) →
    pairOf (outcome plain demoConfig c w) = some pair →
    (after plain demoConfig c w).ledger.user pair.user.id = some u → u.mfaEnabled = true →
    ∃ code, presented c = some code ∧ PresentsCode plain code u := by
  intro h
  obtain ⟨pair, hpair⟩ := Option.isSome_iff_exists.mp (by decide +kernel :
    (pairOf (outcome plain demoConfig completed (demo handshake))).isSome = true)
  have hid : ∀ pair ∈ pairOf (outcome plain demoConfig completed (demo handshake)),
      pair.user.id = "00" := by decide +kernel
  have hstored : ∃ u ∈ (after plain demoConfig completed (demo handshake)).ledger.user "00",
      u.mfaEnabled = true := by decide +kernel
  obtain ⟨u, hu, hm⟩ := hstored
  obtain ⟨code, hcode, _⟩ := h (demo handshake) completed pair u (reachable_demo handshake)
    (by intro _ _ _ hc; cases hc) hpair (by rw [hid pair hpair]; exact hu) hm
  cases hcode

end RivicQ.Properties.SecondFactor

namespace RivicQ.Properties.Rotation

open RivicQ.Lib.GoStrings RivicQ.Lib.Programs RivicQ.Lib.Pools RivicQ.Lib.Disciplines
open RivicQ.Lib.SingleUse RivicQ.Authn.Types RivicQ.Authn.Records RivicQ.Authn.Environment
open RivicQ.Authn.Operations RivicQ.Authn.Worlds RivicQ.Authn.Rules
open RivicQ.Runs.Calls RivicQ.Runs.Conduct

/-- A session is written back. -/
def Retires : (o : Op) → o.Reply → Prop
  | .store (.updateSession _), r => r = .ok ()
  | _, _ => False

def writtenBack : Op → Option Session
  | .store (.updateSession s) => some s
  | _ => none

/-- A session that is written back is not revoked yet. -/
def FindsUnrevoked (o : Op) (w : World) : Prop :=
  ∀ s ∈ writtenBack o, ∀ s₀ ∈ w.ledger.session s.id, s₀.revokedAt = none

instance (o : Op) (w : World) : Decidable (FindsUnrevoked o w) :=
  inferInstanceAs (Decidable (∀ s ∈ writtenBack o, ∀ s₀ ∈ w.ledger.session s.id, s₀.revokedAt = none))

variable (env : Env) (cfg : Config)

/-- The session of a refresh token is revoked. -/
def Spent (refreshToken : String) (w : World) : Prop :=
  ∃ id s, w.ledger.session id = some s ∧ s.refreshHash = trimSpace (hashToken env refreshToken) ∧
    s.revokedAt ≠ none

/-- Only the session of one refresh token is written back. -/
def rotating (refreshToken : String) : Discipline (handle env) :=
  (conduct env).asking fun _ o =>
    ∀ s, o = .store (.updateSession s) → s.refreshHash = trimSpace (hashToken env refreshToken)

/-- Calls that present the same refresh token, from different clients. -/
def presenting (refreshToken : String) (clients : List (String × String)) : List Call :=
  clients.map fun c => .refresh refreshToken c.1 c.2

variable {env} {refreshToken : String}

theorem rotating_admits : Admits (rotating env refreshToken) (fun k => k = .session) := by
  refine admits_asking fun {w o} ho _ _ s hs => ?_
  subst hs
  exact absurd rfl (ho .session rfl)

theorem spent_onward {v w : World} (h : Onward v w) (hs : Spent env refreshToken v) :
    Spent env refreshToken w := by
  obtain ⟨id, s, hs, hhash, hr⟩ := hs
  obtain ⟨s', hs', hi, hr'⟩ := h.ledger.session hs
  exact ⟨id, s', hs', (refreshHash_of_identity hi).trans hhash, hr' hr⟩

theorem spent_of_retires {o : Op} {w : World} (hw : Sound env w)
    (hG : (rotating env refreshToken).Guard w o) (hf : Retires o (handle env o w).1) :
    Spent env refreshToken (handle env o w).2 := by
  unfold Retires at hf
  split at hf
  · rename_i s
    obtain ⟨ha, hhash⟩ := hG
    obtain ⟨hr, _⟩ | ⟨_, he⟩ := (handle_store hw (.updateSession s) ha.1).2
    · rw [hf] at hr
      cases hr
    · refine ⟨s.id, s, ?_, hhash s rfl, ha.1.1⟩
      rw [he]
      exact if_pos rfl
  · exact hf.elim

theorem until_refresh (userAgent ip : String) :
    Until Retires Failed (refresh env cfg refreshToken userAgent ip) := by
  refine until_orFail fun sess => until_now fun t => ?_
  split
  · split
    · exact until_of_forall fun _ => until_fail _
    · exact until_fail _
  split
  · exact until_fail _
  refine until_of_forall fun found => ?_
  cases found with
  | error e => exact until_of_forall fun _ => until_fail _
  | ok u =>
    simp only
    split
    · exact until_of_forall fun _ => until_fail _
    refine until_orReturn fun token => until_newUUID fun id => until_orReturn fun _ => ?_
    -- what follows the write-back cannot undo it
    refine until_orReturn_left (until_request.mpr fun r => ?_)
    cases r with
    | error e => exact Or.inr (until_fail e)
    | ok _ => exact Or.inl rfl

section

variable (hf : Fresh env)
include hf

theorem kept_presenting {w : World} (hw : Sound env w) (clients : List (String × String)) :
    Kept (rotating env refreshToken) (fun _ _ _ => True)
      (together env cfg (presenting refreshToken clients) w) := by
  refine kept_of_conducts ⟨hw, trivial⟩ fun p hp => ?_
  obtain ⟨c, hc, rfl⟩ := List.mem_map.mp hp
  obtain ⟨client, _, rfl⟩ := List.mem_map.mp hc
  refine conducts_answering (conducts_refresh rotating_admits hf cfg ?_ _ _)
  intro w s hs _ _ ha
  refine ⟨ha, fun s' h => ?_⟩
  cases h
  exact hs

/-- Rotation is single use in every interleaving in which no refresh writes back
a session that is revoked already. -/
theorem refresh_single_use {w : World} (hw : Reachable env cfg w)
    (clients : List (String × String)) (sched : List Nat)
    (hrun : (together env cfg (presenting refreshToken clients) w).Along (handle env)
      (fun _ => FindsUnrevoked) sched)
    {i j : Nat} {a b : Answer}
    (hi : ((together env cfg (presenting refreshToken clients) w).run (handle env) sched).returned i =
      some (.ok a))
    (hj : ((together env cfg (presenting refreshToken clients) w).run (handle env) sched).returned j =
      some (.ok b)) : i = j := by
  have hsound := reachable_sound hf cfg hw
  have hkept := @kept_presenting env cfg refreshToken hf _ hsound clients
  refine at_most_once (D := rotating env refreshToken) (fun h => h) (fun h => spent_onward h.1)
    ?_ (fun o v hv hG hfire => spent_of_retires hv.1 hG hfire) sched hkept ?_ ?_ hi (not_failed_ok a) hj
    (not_failed_ok b)
  · intro o r hfire
    unfold Retires at hfire
    split at hfire
    · rfl
    · exact hfire.elim
  · intro i q hq
    obtain ⟨c, hc, rfl⟩ := List.mem_map.mp (List.mem_of_getElem? hq)
    obtain ⟨client, _, rfl⟩ := List.mem_map.mp hc
    exact until_orReturn_left (until_refresh cfg _ _)
  · refine along_of_kept (fun h => h) (fun c o v hv hG hP hfire hspent => ?_) sched hkept hrun
    unfold Retires at hfire
    split at hfire
    · rename_i s
      -- the spent session is the very one that is written back
      obtain ⟨id, s₁, hs₁, hhash, hrevoked⟩ := hspent
      obtain ⟨_, s₀, hs₀, hi₀⟩ := hG.1.1
      have hsame : id = s.id := hv.1.keyed.refreshHash hs₁ hs₀
        (hhash.trans ((hG.2 s rfl).symm.trans (refreshHash_of_identity hi₀)))
      rw [hsame] at hs₁
      exact hrevoked (hP s rfl s₁ hs₁)
    · exact hfire.elim

end

/-- Two refreshes of the token of the session that was just opened. -/
def twoRefreshes (sched : List Nat) : Pool Calls World (Except Err Answer) :=
  (together plain demoConfig (presenting "aaaaaaaa" [("", ""), ("", "")]) (demo signedIn)).run
    (handle plain) sched

/-- One after the other: the second is refused. -/
theorem refresh_single_use_in_turn :
    (∃ a, (twoRefreshes [0, 0, 0, 0, 0, 1, 1, 1]).returned 0 = some (.ok a)) ∧
      ¬ ∃ b, (twoRefreshes [0, 0, 0, 0, 0, 1, 1, 1]).returned 1 = some (.ok b) := by
  have hfirst := exists_ok (by decide +kernel :
    ((twoRefreshes [0, 0, 0, 0, 0, 1, 1, 1]).returned 0).map Except.isOk = some true)
  refine ⟨hfirst, fun ⟨b, hb⟩ => ?_⟩
  obtain ⟨a, ha⟩ := hfirst
  have heq := refresh_single_use demoConfig fresh_plain (reachable_demo signedIn) _ _
    (by decide +kernel) ha hb
  cases heq

/-- Both look up the session before either writes it back, and both succeed. -/
theorem refresh_twice : ¬ ∀ (w : World) (refreshToken : String) (clients : List (String × String))
    (sched : List Nat) (i j : Nat) (a b : Answer), Reachable plain demoConfig w →
    ((together plain demoConfig (presenting refreshToken clients) w).run (handle plain) sched).returned
      i = some (.ok a) →
    ((together plain demoConfig (presenting refreshToken clients) w).run (handle plain) sched).returned
      j = some (.ok b) → i = j := by
  intro h
  obtain ⟨a, ha⟩ := exists_ok (by decide +kernel :
    ((twoRefreshes [0, 0, 1, 1, 0, 0, 1, 1, 0, 1]).returned 0).map Except.isOk = some true)
  obtain ⟨b, hb⟩ := exists_ok (by decide +kernel :
    ((twoRefreshes [0, 0, 1, 1, 0, 0, 1, 1, 0, 1]).returned 1).map Except.isOk = some true)
  have heq := h (demo signedIn) _ _ _ 0 1 a b (reachable_demo signedIn) ha hb
  cases heq

end RivicQ.Properties.Rotation
