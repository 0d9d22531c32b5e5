import RivicQ.Runs.Outcomes

namespace RivicQ.Properties.Reset

open RivicQ.Lib.GoStrings RivicQ.Authn.Types RivicQ.Authn.Records RivicQ.Authn.Environment
open RivicQ.Authn.Operations RivicQ.Authn.Worlds RivicQ.Authn.Rules
open RivicQ.Runs.Calls RivicQ.Runs.Conduct RivicQ.Runs.Alone RivicQ.Runs.Outcomes

/-- The raw token a call proves the old credentials with. -/
def proof : Call → Option String
  | .verifyMFA mfaSession _ _ _ => some mfaSession
  | .resetPassword rawToken _ => some rawToken
  | _ => none

/-- The token is stored as it was, unused, and it has not expired. -/
structure Outstanding (env : Env) (raw : String) (t : Token) (w : World) : Prop where
  stored : w.ledger.token (trimSpace (hashToken env raw)) = some t
  unused : t.usedAt = none
  unexpired : ∃ n, w.ticks ≤ n ∧ env.clock n < t.expiresAt

variable {env : Env} {cfg : Config} {w : World}

theorem eq_of_issued {t t' : Token} (h : issued t' = issued t) (hu : t'.usedAt = t.usedAt) :
    t' = t := by
  obtain ⟨hash, userID, purpose, expiresAt, usedAt⟩ := t
  obtain ⟨hash', userID', purpose', expiresAt', usedAt'⟩ := t'
  simp only [issued, Token.mk.injEq, and_true] at h
  cases hu
  obtain ⟨rfl, rfl, rfl, rfl⟩ := h
  rfl

/-- What an accepted proof stands for. -/
theorem accepted_loads (hf : Fresh env) (hw : Sound env w) {c : Call} {raw : String}
    (hc : proof c = some raw) {a : Answer} (h : outcome env cfg c w = .ok a) :
    ∃ purpose tok u, Loads env raw purpose w tok u := by
  cases c with
  | verifyMFA mfaSession code userAgent ip =>
    cases hc
    obtain ⟨_, _, tok, u, hload, _⟩ := after_delivers (c := .verifyMFA raw code userAgent ip)
      (by rfl) hw (delivers_verifyMFA hf hw raw code userAgent ip) h
    exact ⟨_, tok, u, hload⟩
  | resetPassword rawToken newPassword =>
    cases hc
    obtain ⟨_, _, ⟨tok, u, hload⟩, _⟩ := after_delivers (c := .resetPassword raw newPassword)
      (by rfl) hw (delivers_resetPassword hw raw newPassword) h
    exact ⟨_, tok, u, hload⟩
  | _ => cases hc

theorem reset_uses (hw : Sound env w) {raw newPassword : String} {a : Answer}
    (h : outcome env cfg (.resetPassword raw newPassword) w = .ok a) :
    ∃ t, (after env cfg (.resetPassword raw newPassword) w).ledger.token
      (trimSpace (hashToken env raw)) = some t ∧ t.usedAt ≠ none := by
  obtain ⟨_, _, _, hused⟩ := after_delivers (c := .resetPassword raw newPassword)
    (by rfl) hw (delivers_resetPassword hw raw newPassword) h
  exact hused

/-- After a successful reset, a token issued before it is accepted only if it is
another one than the reset presented and is still outstanding. -/
theorem accepted_after_reset (hf : Fresh env) (hw : Reachable env cfg w)
    {raw newPassword : String} {a : Answer}
    (hreset : outcome env cfg (.resetPassword raw newPassword) w = .ok a) (calls : List Call)
    {c : Call} {raw' : String} (hc : proof c = some raw') {t : Token}
    (ht : w.ledger.token (trimSpace (hashToken env raw')) = some t) {b : Answer}
    (haccept : outcome env cfg c
      (serially env cfg calls (after env cfg (.resetPassword raw newPassword) w)) = .ok b) :
    trimSpace (hashToken env raw') ≠ trimSpace (hashToken env raw) ∧
      Outstanding env raw' t
        (serially env cfg calls (after env cfg (.resetPassword raw newPassword) w)) := by
  have hsound := reachable_sound hf cfg hw
  obtain ⟨hsound₁, honward₁⟩ := sound_after hf cfg hsound (.resetPassword raw newPassword)
  obtain ⟨hsound₂, honward₂⟩ := sound_serially hf cfg calls hsound₁
  obtain ⟨purpose, tok, u, hload⟩ := accepted_loads hf hsound₂ hc haccept
  constructor
  · intro hsame
    obtain ⟨t₁, ht₁, hused⟩ := reset_uses hsound hreset
    obtain ⟨t₂, ht₂, _, hused₂⟩ := honward₂.ledger.token ht₁
    have htok := hload.token
    rw [hsame, ht₂] at htok
    cases htok
    exact hused₂ hused hload.unused
  · obtain ⟨t₂, ht₂, hissued, hused⟩ := (onward_trans honward₁ honward₂).ledger.token ht
    rw [hload.token] at ht₂
    cases ht₂
    have hunused : t.usedAt = none := by
      by_contra hne
      exact hused hne hload.unused
    have hsame : tok = t := eq_of_issued hissued (hload.unused.trans hunused.symm)
    subst hsame
    exact ⟨hload.token, hunused, hload.unexpired⟩

/-- A registered user has asked for a reset token twice. -/
def forgottenTwice : List Call :=
  [.register "Ada" "ada@example.org" "Tr0ub4dor-lake" "", .forgotPassword "ada@example.org",
    .forgotPassword "ada@example.org"]

def firstReset : Call := .resetPassword "aaaaaaa" "N3w-passphrase"

def secondReset : Call := .resetPassword "aaaaaaaaaaaaa" "0ther-passphrase"

theorem firstReset_ok : ∃ a, outcome plain demoConfig firstReset (demo forgottenTwice) = .ok a := by
  obtain ⟨a, ha⟩ := exists_ok (by decide +kernel :
    (some (outcome plain demoConfig firstReset (demo forgottenTwice))).map Except.isOk = some true)
  exact ⟨a, Option.some.inj ha⟩

theorem secondReset_ok : ∃ b, outcome plain demoConfig secondReset
    (serially plain demoConfig [] (after plain demoConfig firstReset (demo forgottenTwice))) =
      .ok b := by
  obtain ⟨b, hb⟩ := exists_ok (by decide +kernel : (some (outcome plain demoConfig secondReset
    (after plain demoConfig firstReset (demo forgottenTwice)))).map Except.isOk = some true)
  exact ⟨b, Option.some.inj hb⟩

/-- The second token was outstanding. -/
theorem accepted_after_first : ∃ t, Outstanding plain "aaaaaaaaaaaaa" t
    (serially plain demoConfig [] (after plain demoConfig firstReset (demo forgottenTwice))) := by
  obtain ⟨a, ha⟩ := firstReset_ok
  obtain ⟨b, hb⟩ := secondReset_ok
  obtain ⟨t, ht⟩ := Option.isSome_iff_exists.mp (by decide +kernel : ((demo forgottenTwice).ledger.token
    (trimSpace (hashToken plain "aaaaaaaaaaaaa"))).isSome = true)
  exact ⟨t, (accepted_after_reset (c := secondReset) fresh_plain (reachable_demo forgottenTwice) ha
    [] rfl ht hb).2⟩

/-- Two reset tokens of one account, issued before either is used, both change
the password. -/
theorem reset_leaves_tokens : ¬ ∀ (w : World) (raw newPassword : String) (a : Answer)
    (calls : List Call) (c : Call) (raw' : String) (t t' : Token), Reachable plain demoConfig w →
    outcome plain demoConfig (.resetPassword raw newPassword) w = .ok a → proof c = some raw' →
    w.ledger.token (trimSpace (hashToken plain raw)) = some t →
    w.ledger.token (trimSpace (hashToken plain raw')) = some t' → t'.userID = t.userID →
    ∀ b, outcome plain demoConfig c (serially plain demoConfig calls
      (after plain demoConfig (.resetPassword raw newPassword) w)) ≠ .ok b := by
  intro h
  obtain ⟨a, ha⟩ := firstReset_ok
  obtain ⟨b, hb⟩ := secondReset_ok
  have howners : ∃ t ∈ (demo forgottenTwice).ledger.token (trimSpace (hashToken plain "aaaaaaa")),
      ∃ t' ∈ (demo forgottenTwice).ledger.token (trimSpace (hashToken plain "aaaaaaaaaaaaa")),
        t'.userID = t.userID := by decide +kernel
  obtain ⟨t, ht, t', ht', howner⟩ := howners
  exact h (demo forgottenTwice) "aaaaaaa" "N3w-passphrase" a [] secondReset "aaaaaaaaaaaaa" t t'
    (reachable_demo forgottenTwice) ha rfl ht ht' howner b hb

end RivicQ.Properties.Reset

namespace RivicQ.Properties.Disablement

open RivicQ.Lib.GoStrings RivicQ.Authn.Types RivicQ.Authn.Records RivicQ.Authn.Stores
open RivicQ.Authn.Environment RivicQ.Authn.Operations RivicQ.Authn.Worlds RivicQ.Authn.Rules
open RivicQ.Runs.Calls RivicQ.Runs.Conduct RivicQ.Runs.Alone RivicQ.Runs.Outcomes

/-- The operations that issue tokens. -/
def Issues : Call → Prop
  | .login _ _ _ _ _ | .verifyMFA _ _ _ _ | .refresh _ _ _ | .demoLogin _ _
  | .issueTokens _ _ _ _ => True
  | _ => False

def ForEnabled (pair : TokenPair) (w : World) : Prop :=
  ∃ u, w.ledger.user pair.user.id = some u ∧ u.disabled = false

variable {env : Env} {cfg : Config} {w : World}

/-- The account of a call that does not look at the flag itself is enabled. -/
def Enabled (env : Env) (w : World) : Call → Prop
  | .verifyMFA mfaSession _ _ _ => ∀ t u,
      w.ledger.token (trimSpace (hashToken env mfaSession)) = some t →
      w.ledger.user t.userID = some u → u.disabled = false
  | .demoLogin _ _ => ∀ u,
      w.store.userByEmail env.cases "operator@rivicq.com" = .ok u → u.disabled = false
  | .issueTokens u _ _ _ => ∃ v, w.ledger.user u.id = some v ∧ v.disabled = false
  | _ => True

theorem forEnabled_iff {u : User} {pair : TokenPair} {w' : World} (h : IssuedFor w u pair w') :
    ForEnabled pair w' ↔ u.disabled = false := by
  have hstored : w'.ledger.user pair.user.id = some u := by
    rw [h.users, h.pair]
    exact h.stored
  constructor
  · rintro ⟨v, hv, hd⟩
    rw [hstored] at hv
    cases hv
    exact hd
  · intro hd
    exact ⟨u, hstored, hd⟩

/-- Tokens are issued to an enabled account exactly where the account is enabled
when the call starts, if the call does not check the flag. -/
theorem tokens_for_enabled (hf : Fresh env) (hw : Reachable env cfg w) {c : Call} (hc : Issues c)
    {pair : TokenPair} (hpair : pairOf (outcome env cfg c w) = some pair) :
    ForEnabled pair (after env cfg c w) ↔ Enabled env w c := by
  have hsound := reachable_sound hf cfg hw
  obtain ⟨a, h, hp⟩ := ok_of_pairOf hpair
  cases c with
  | login email password edition userAgent ip =>
    obtain ⟨res, rfl, hres⟩ := after_delivers (c := .login email password edition userAgent ip)
      (by rfl) hsound (delivers_login hf hsound email password edition userAgent ip) h
    cases res with
    | mfaRequired user mfaSession => cases hp
    | tokens pair' =>
      cases hp
      obtain ⟨u, hd, _, hissued⟩ := hres pair rfl
      exact ⟨fun _ => trivial, fun _ => (forEnabled_iff hissued).mpr hd⟩
  | verifyMFA mfaSession code userAgent ip =>
    obtain ⟨pair', rfl, tok, u, hload, _, _, hissued⟩ :=
      after_delivers (c := .verifyMFA mfaSession code userAgent ip) (by rfl) hsound
        (delivers_verifyMFA hf hsound mfaSession code userAgent ip) h
    cases hp
    rw [forEnabled_iff hissued]
    constructor
    · intro hd t v ht hv
      rw [hload.token] at ht
      cases ht
      rw [hload.owner] at hv
      cases hv
      exact hd
    · intro hen
      exact hen tok u hload.token hload.owner
  | refresh refreshToken userAgent ip =>
    obtain ⟨pair', rfl, sess, u, _, _, _, _, hd, hissued, _⟩ :=
      after_delivers (c := .refresh refreshToken userAgent ip) (by rfl) hsound
        (delivers_refresh hf hsound refreshToken userAgent ip) h
    cases hp
    exact ⟨fun _ => trivial, fun _ => (forEnabled_iff hissued).mpr hd⟩
  | demoLogin userAgent ip =>
    obtain ⟨pair', rfl, _, u, hu, hissued⟩ := after_delivers (c := .demoLogin userAgent ip)
      (by rfl) hsound (delivers_demoLogin hf hsound userAgent ip) h
    cases hp
    rw [forEnabled_iff hissued]
    constructor
    · intro hd v hv
      rw [hu] at hv
      cases hv
      exact hd
    · intro hen
      exact hen u hu
  | issueTokens u edition userAgent ip =>
    obtain ⟨pair', rfl, huser, husers, _⟩ :=
      after_delivers (c := .issueTokens u edition userAgent ip) (by rfl) hsound
        (delivers_issueSession conduct_admits hf hsound u _ userAgent ip) h
    cases hp
    unfold ForEnabled Enabled
    rw [husers, huser]
    exact Iff.rfl
  | _ => exact hc.elim

/-- The account is disabled after the challenge. -/
def disabledBetween : World :=
  after plain demoConfig (editing "00" (fun u => { u with disabled := true }) (demo challenged))
    (demo challenged)

theorem reachable_disabledBetween : Reachable plain demoConfig disabledBetween :=
  reachable_demo (challenged ++
    [editing "00" (fun u => { u with disabled := true }) (demo challenged)])

/-- The challenge of an account that stays enabled ends in tokens for it. -/
theorem tokens_for_challenged : ∃ pair, pairOf (outcome plain demoConfig codeGiven (demo challenged)) =
    some pair ∧ ForEnabled pair (after plain demoConfig codeGiven (demo challenged)) := by
  obtain ⟨pair, hpair⟩ := Option.isSome_iff_exists.mp (by decide +kernel :
    (pairOf (outcome plain demoConfig codeGiven (demo challenged))).isSome = true)
  refine ⟨pair, hpair, ?_⟩
  refine (tokens_for_enabled (c := codeGiven) fresh_plain (reachable_demo challenged) trivial hpair).mpr ?_
  intro t u ht hu
  have hdisabled : ∀ u ∈ (demo challenged).ledger.user "00", u.disabled = false := by
    decide +kernel
  have howner : ∀ t ∈ (demo challenged).ledger.token
      (trimSpace (hashToken plain "aaaaaaaaaaaaaaaaa")), t.userID = "00" := by decide +kernel
  rw [howner t ht] at hu
  exact hdisabled u hu

/-- Disabled between the password and the code, the account still gets a session. -/
theorem tokens_for_disabled : ¬ ∀ (w : World) (c : Call) (pair : TokenPair),
    Reachable plain demoConfig w → Issues c → pairOf (outcome plain demoConfig c w) = some pair →
    ForEnabled pair (after plain demoConfig c w) := by
  intro h
  obtain ⟨pair, hpair⟩ := Option.isSome_iff_exists.mp (by decide +kernel :
    (pairOf (outcome plain demoConfig codeGiven disabledBetween)).isSome = true)
  obtain ⟨u, hu, hd⟩ := h disabledBetween codeGiven pair reachable_disabledBetween trivial hpair
  have hid : ∀ pair ∈ pairOf (outcome plain demoConfig codeGiven disabledBetween),
      pair.user.id = "00" := by decide +kernel
  have hdisabled : ∀ u ∈ (after plain demoConfig codeGiven disabledBetween).ledger.user "00",
      u.disabled = true := by decide +kernel
  rw [hid pair hpair] at hu
  rw [hdisabled u hu] at hd
  cases hd

end RivicQ.Properties.Disablement
