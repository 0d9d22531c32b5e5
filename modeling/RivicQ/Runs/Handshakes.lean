import RivicQ.Runs.Outcomes

namespace RivicQ.Runs.Handshakes

open RivicQ.Lib.GoStrings RivicQ.Lib.Programs RivicQ.Lib.Disciplines
open RivicQ.Authn.Types RivicQ.Authn.Records RivicQ.Authn.Environment RivicQ.Authn.Operations
open RivicQ.Authn.Worlds RivicQ.Authn.Rules RivicQ.Shared.OAuth
open RivicQ.Runs.Calls RivicQ.Runs.Conduct RivicQ.Runs.Alone RivicQ.Runs.Outcomes

variable (env : Env)

/-- Google exchanged the code for a profile that shows the address as verified. -/
def VouchedByGoogle (code email : String) : Prop :=
  ∃ m n token body googleUser, env.exchange m .google code = .ok token ∧
    env.get n "https://www.googleapis.com/oauth2/v3/userinfo" token = .ok body ∧
    env.decodeGoogleUser body = .ok googleUser ∧ googleUser.emailVerified = true ∧
    googleUser.email = email

/-- The address GitHub shows in a profile, or a primary verified one of its list. -/
def ShownByGitHub (token : String) (ghUser : GitHubUser) (email : String) : Prop :=
  ghUser.email = email ∨ ∃ n body emails e,
    env.get n "https://api.github.com/user/emails" token = .ok body ∧
    env.decodeGitHubEmails body = .ok emails ∧ e ∈ emails ∧ e.primary = true ∧
    e.verified = true ∧ e.email = email

def VouchedByGitHub (code email : String) : Prop :=
  ∃ m n token body ghUser, env.exchange m .github code = .ok token ∧
    env.get n "https://api.github.com/user" token = .ok body ∧
    env.decodeGitHubUser body = .ok ghUser ∧ ShownByGitHub env token ghUser email

/-- Where the tokens are for an account with a second factor, it is one whose
address satisfies `P`. -/
def ForAddress (P : String → Prop) (pair : TokenPair) (w : World) : Prop :=
  ∀ v, w.ledger.user pair.user.id = some v → v.mfaEnabled = true →
    ∃ email, P email ∧ normalizeEmail env.cases v.email = normalizeEmail env.cases email

variable {env} {cfg : Config} {w : World} (hf : Fresh env)
include hf

theorem delivers_signIn (hw : Sound env w) {P : String → Prop} {email : String} (hP : P email)
    (name requestedEdition userAgent ip : String) (e e' : Err) (edition : User → String) :
    Delivers (alone env) (fun c w' => ForAddress env P c.pair w')
      (orFail (ensureExternalUser env cfg email name "") e fun user =>
        orFail (issueTokens env cfg user requestedEdition userAgent ip) e' fun pair =>
        done (⟨pair, edition user, user⟩ : Completion)) w := by
  refine delivers_orFail (D := alone env) hw ?_
  refine delivers_mono (fun user w₁ hw₁ huser _ => ?_) (delivers_ensureExternalUser hf hw email name "")
  obtain ⟨v, hv, _, hsame⟩ := huser
  refine delivers_orFail (D := alone env) hw₁ ?_
  refine delivers_mono (fun pair w₂ _ hpair _ => ?_)
    (delivers_issueSession conduct_admits hf hw₁ user _ userAgent ip)
  obtain ⟨hpu, husers, _⟩ := hpair
  refine delivers_alone_done fun v' hv' hm => ⟨email, hP, ?_⟩
  have hv'' : w₁.ledger.user user.id = some v' := by
    rw [← husers]
    rw [hpu] at hv'
    exact hv'
  rw [hv] at hv''
  cases hv''
  obtain ⟨rfl, hemail⟩ := hsame hm
  exact hemail

theorem delivers_completeGoogleOAuth (hw : Sound env w) (code state : String) :
    Delivers (alone env) (fun c w' => ForAddress env (VouchedByGoogle env code) c.pair w')
      (completeGoogleOAuth env cfg code state) w := by
  refine guarded_ask conduct_admits (by simp) rfl hw fun w₁ hw₁ _ => ?_
  split
  · exact delivers_fail _
  rename_i requestedEdition _
  refine guarded_ask conduct_admits (by simp) rfl hw₁ fun w₂ hw₂ _ => ?_
  refine guarded_ask conduct_admits (by simp) rfl hw₂ fun w₃ hw₃ _ => ?_
  cases hexchange : (handle env (.exchange .google code) w₂).1 with
  | error e => exact delivers_fail _
  | ok token =>
    refine guarded_ask conduct_admits (by simp) rfl hw₃ fun w₄ hw₄ _ => ?_
    cases hget : (handle env (.get "https://www.googleapis.com/oauth2/v3/userinfo" token) w₃).1 with
    | error e => exact delivers_fail _
    | ok body =>
      simp only [Program.pure_bind]
      split
      · exact delivers_fail _
      rename_i googleUser hdecode
      split
      · exact delivers_fail _
      rename_i hverified
      split
      · exact delivers_fail _
      refine delivers_signIn hf hw₄ ?_ _ _ _ _ _ _ _
      exact ⟨_, _, token, body, googleUser, hexchange, hget, hdecode, by simpa using hverified, rfl⟩

theorem delivers_googleHandler (hw : Sound env w) (missing code state : String) :
    Delivers (alone env) (fun c w' => ForAddress env (VouchedByGoogle env code) c.pair w')
      (googleHandler env cfg missing code state) w := by
  unfold googleHandler
  split
  · exact delivers_fail _
  split
  · exact delivers_fail _
  refine guarded_bind (D := alone env) hw ?_
  refine guarded_mono (fun r w' _ hr => ?_) (delivers_completeGoogleOAuth hf hw code state)
  cases r with
  | error e => exact delivers_fail _
  | ok c => exact delivers_alone_done (hr c rfl)

theorem delivers_googleCallback (hw : Sound env w) (oauthErr code state : String) :
    Delivers (alone env) (fun c w' => ForAddress env (VouchedByGoogle env code) c.pair w')
      (googleCallback env cfg oauthErr code state) w := by
  unfold googleCallback
  split
  · exact delivers_fail _
  · exact delivers_googleHandler hf hw _ code state

omit hf in
theorem delivers_githubEmail {β : Type} {Post : β → World → Prop} (hw : Sound env w)
    {token : String} {ghUser : GitHubUser} {k : String → Prog β}
    (hk : ∀ email w', Sound env w' → (email ≠ "" → ShownByGitHub env token ghUser email) →
      Delivers (alone env) Post (k email) w') :
    Delivers (alone env) Post (githubEmail env token ghUser k) w := by
  unfold githubEmail
  split
  · exact hk _ w hw fun _ => Or.inl rfl
  refine guarded_ask conduct_admits (by simp) rfl hw fun w₁ hw₁ _ => ?_
  cases hget : (handle env (.get "https://api.github.com/user/emails" token) w).1 with
  | error e => exact hk "" w₁ hw₁ fun h => absurd rfl h
  | ok body =>
    simp only [Program.pure_bind]
    split
    · exact hk "" w₁ hw₁ fun h => absurd rfl h
    rename_i emails hdecode
    refine hk _ w₁ hw₁ fun hne => Or.inr ?_
    cases hfind : emails.find? (fun e => e.primary && e.verified) with
    | none =>
      rw [hfind] at hne
      exact absurd rfl hne
    | some e =>
      have hpv := List.find?_some hfind
      simp only [Bool.and_eq_true] at hpv
      exact ⟨_, body, emails, e, hget, hdecode, List.mem_of_find?_eq_some hfind, hpv.1, hpv.2, rfl⟩

theorem delivers_githubCallback (hw : Sound env w) (code state userAgent ip : String) :
    Delivers (alone env) (fun c w' => ForAddress env (VouchedByGitHub env code) c.pair w')
      (githubCallback env cfg code state userAgent ip) w := by
  unfold githubCallback
  split
  · exact delivers_fail _
  split
  · exact delivers_fail _
  refine guarded_ask conduct_admits (by simp) rfl hw fun w₁ hw₁ _ => ?_
  split
  · exact delivers_fail _
  refine guarded_ask conduct_admits (by simp) rfl hw₁ fun w₂ hw₂ _ => ?_
  refine guarded_ask conduct_admits (by simp) rfl hw₂ fun w₃ hw₃ _ => ?_
  cases hexchange : (handle env (.exchange .github code) w₂).1 with
  | error e => exact delivers_fail _
  | ok token =>
    refine guarded_ask conduct_admits (by simp) rfl hw₃ fun w₄ hw₄ _ => ?_
    cases hget : (handle env (.get "https://api.github.com/user" token) w₃).1 with
    | error e => exact delivers_fail _
    | ok body =>
      simp only [Program.pure_bind]
      split
      · exact delivers_fail _
      rename_i ghUser hdecode
      refine delivers_githubEmail hw₄ fun email w₅ hw₅ hshown => ?_
      split
      · exact delivers_fail _
      rename_i hne
      split
      · exact delivers_fail _
      refine delivers_signIn hf hw₅ ?_ _ _ _ _ _ _ _
      exact ⟨_, _, token, body, ghUser, hexchange, hget, hdecode, hshown hne⟩

end RivicQ.Runs.Handshakes
