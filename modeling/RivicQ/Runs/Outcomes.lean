import RivicQ.Runs.Alone

namespace RivicQ.Runs.Outcomes

open RivicQ.Lib.GoStrings RivicQ.Lib.Programs RivicQ.Lib.Disciplines
open RivicQ.Authn.Types RivicQ.Authn.Records RivicQ.Authn.Stores RivicQ.Authn.Environment
open RivicQ.Authn.Operations RivicQ.Authn.Worlds RivicQ.Authn.Rules
open RivicQ.Runs.Calls RivicQ.Runs.Conduct RivicQ.Runs.Alone

variable {α β : Type} {env : Env} {cfg : Config} {w : World}

/-- A pair was issued for the stored record `u`, and the user records are the
ones before. -/
structure IssuedFor (w : World) (u : User) (pair : TokenPair) (w' : World) : Prop where
  stored : w.ledger.user u.id = some u
  pair : pair.user = publicUser u
  users : w'.ledger.user = w.ledger.user

theorem delivers_resetPassword (hw : Sound env w) (rawToken newPassword : String) :
    Delivers (alone env) (fun _ w' => (∃ tok u, Loads env rawToken .resetPassword w tok u) ∧
      ∃ t, w'.ledger.token (trimSpace (hashToken env rawToken)) = some t ∧ t.usedAt ≠ none)
      (resetPassword env rawToken newPassword) w := by
  refine delivers_orReturn (D := alone env) hw ?_
  refine delivers_mono (fun t w₁ hw₁ hload => ?_) (delivers_loadToken conduct_admits hw rawToken _)
  obtain ⟨tok, u⟩ := t
  obtain ⟨hl₁, _, hloads⟩ := hload
  intro _
  simp only
  split
  · exact delivers_fail _
  apply guarded_hashPassword
  · exact fun e => delivers_fail e
  intro hash _
  have hhash : trimSpace tok.hash = trimSpace (hashToken env rawToken) := by
    rw [hw.keyed.token hloads.token, trimSpace_trimSpace]
  refine delivers_orReturn (D := alone env) (inv_tick (D := alone env) hw₁) ?_
  refine delivers_mono (fun _ w₂ hw₂ hused _ => ?_) (delivers_markTokenUsed conduct_admits
    (inv_tick (D := conduct env) hw₁) tok.hash ⟨trivial, trivial⟩)
  have hkeep : ∀ w', Onward w₂ w' →
      ∃ t, w'.ledger.token (trimSpace (hashToken env rawToken)) = some t ∧ t.usedAt ≠ none := by
    intro w' ho
    obtain ⟨_, t, ht, hne⟩ := hused
    rw [hhash] at ht
    obtain ⟨t', ht', _, hu'⟩ := ho.ledger.token ht
    exact ⟨t', ht', hu' hne⟩
  refine guarded_serve conduct_admits hw₂ ⟨trivial, trivial⟩ fun r w₃ hw₃ ho₃ _ _ => ?_
  cases r with
  | error e => exact delivers_fail _
  | ok _ =>
    exact guarded_serve_last (o := .revokeSessionsForUser u.id) conduct_admits hw₃ ⟨trivial, trivial⟩
      fun _ w₄ _ ho₄ _ _ _ => ⟨⟨tok, u, hloads⟩, hkeep w₄ (onward_trans ho₃ ho₄)⟩

section

variable (hf : Fresh env)
include hf

theorem delivers_issued {w₁ : World} (hw₁ : Sound env w₁) {u : User}
    (hu : w.ledger.user u.id = some u) (hl : w₁.ledger.user = w.ledger.user) (edition : Edition)
    (userAgent ip : String) :
    Delivers (alone env) (fun pair w' => IssuedFor w u pair w' ∧ w'.ledger.token = w₁.ledger.token)
      (issueSession env cfg u edition userAgent ip) w₁ := by
  refine delivers_mono (fun pair w' _ h => ?_)
    (delivers_issueSession conduct_admits hf hw₁ u edition userAgent ip)
  exact ⟨⟨hu, h.1, h.2.1.trans hl⟩, h.2.2⟩

theorem delivers_login (hw : Sound env w) (email password edition userAgent ip : String) :
    Delivers (alone env) (fun res w' => ∀ pair, res = .tokens pair →
      ∃ u, u.disabled = false ∧ u.mfaEnabled = false ∧ IssuedFor w u pair w')
      (login env cfg email password edition userAgent ip) w := by
  refine guarded_serve conduct_admits hw ⟨trivial, trivial⟩ fun r w₁ hw₁ _ _ hs₁ => ?_
  cases r with
  | error e => exact delivers_fail _
  | ok u =>
    have hu := (hs₁.2 u rfl).1
    simp only
    split
    · exact delivers_fail _
    rename_i hdisabled
    split
    · exact delivers_fail _
    split
    · exact delivers_fail _
    split
    · rename_i hmfa
      refine delivers_orReturn (D := alone env) hw₁ ?_
      refine guarded_mono (fun _ _ _ _ raw _ _ => ?_)
        ((conducts_issueToken alone_admits hf u.id .mfaChallenge cfg.mfaSessionTTL).guarded _ hw₁)
      exact delivers_alone_done fun pair h => by cases h
    · rename_i hmfa
      refine delivers_orReturn (D := alone env) hw₁ ?_
      refine delivers_mono (fun pair w' _ h _ => ?_)
        (delivers_issued hf hw₁ hu (by rw [hs₁.1]) _ userAgent ip)
      refine delivers_alone_done fun pair' hp => ?_
      cases hp
      exact ⟨u, by simpa using hdisabled, by simpa using hmfa, h.1⟩

theorem delivers_verifyMFA (hw : Sound env w) (mfaSession code userAgent ip : String) :
    Delivers (alone env) (fun pair w' => ∃ tok u, Loads env mfaSession .mfaChallenge w tok u ∧
      trimSpace u.mfaSecret ≠ "" ∧
      (∃ n, env.totpValidate (env.clock n) (trimSpace code) u.mfaSecret = true) ∧
      IssuedFor w u pair w')
      (verifyMFA env cfg mfaSession code userAgent ip) w := by
  refine delivers_orFail (D := alone env) hw ?_
  refine delivers_mono (fun t w₁ hw₁ hload _ => ?_)
    (delivers_loadToken conduct_admits hw mfaSession _)
  obtain ⟨tok, u⟩ := t
  obtain ⟨hl₁, _, hloads⟩ := hload
  have hid : u.id = tok.userID := hw.keyed.user hloads.owner
  refine guarded_totpValid (D := alone env) (fun w' _ _ => delivers_fail _) (fun hne hvalid => ?_) hw₁
  have hw₂ : Sound env w₁.tick := inv_tick (D := conduct env) hw₁
  refine delivers_orFail (D := alone env) hw₂ ?_
  refine delivers_mono (fun _ w₃ hw₃ hmark _ => ?_)
    (delivers_markTokenUsed conduct_admits hw₂ tok.hash ⟨trivial, trivial⟩)
  refine delivers_mono (fun pair w₄ _ h => ⟨tok, u, hloads, hne, ⟨_, hvalid⟩, h.1⟩)
    (delivers_issued hf hw₃ (hid ▸ hloads.owner) ?_ _ userAgent ip)
  rw [hmark.1]
  exact congrArg Ledger.user hl₁

theorem delivers_demoLogin (hw : Sound env w) (userAgent ip : String) :
    Delivers (alone env) (fun pair w' => cfg.demoMode = true ∧
      ∃ u, w.store.userByEmail env.cases "operator@rivicq.com" = .ok u ∧ IssuedFor w u pair w')
      (demoLogin env cfg userAgent ip) w := by
  unfold demoLogin
  split
  · exact delivers_fail _
  rename_i hdemo
  apply guarded_store
  · exact ⟨trivial, trivial⟩
  intro w₁ hr hw₁
  cases hr
  have hs := (handle_store hw (.getUserByEmail "operator@rivicq.com") trivial).2
  cases hr : (handle env (.store (.getUserByEmail "operator@rivicq.com")) w).1 with
  | error e => exact delivers_fail _
  | ok u =>
    refine delivers_mono (fun pair w' _ h => ⟨by simpa using hdemo, u, ?_, h.1⟩)
      (delivers_issued hf hw₁ (hs.2 u hr).1 (by rw [hs.1]) .oss userAgent ip)
    exact Store.userByEmail_of_exec hr

/-- A refresh succeeds only on a session that is not revoked, which it leaves
revoked and rotated. -/
theorem delivers_refresh (hw : Sound env w) (refreshToken userAgent ip : String) :
    Delivers (alone env) (fun pair w' => ∃ sess u,
      w.ledger.session sess.id = some sess ∧
      sess.refreshHash = trimSpace (hashToken env refreshToken) ∧ sess.revokedAt = none ∧
      w.ledger.user sess.userID = some u ∧ u.disabled = false ∧ IssuedFor w u pair w' ∧
      ∃ s', w'.ledger.session sess.id = some s' ∧ s'.revokedAt ≠ none ∧ s'.rotatedTo ≠ "")
      (refresh env cfg refreshToken userAgent ip) w := by
  have hrevoke : ∀ {w' : World} (userID : String) (e : Err) {Post : TokenPair → World → Prop},
      Sound env w' → Delivers (alone env) Post
        ((store (.revokeSessionsForUser userID)).bind fun _ => (fail e : Prog TokenPair)) w' :=
    fun userID e _ hw' => guarded_serve conduct_admits hw' ⟨trivial, trivial⟩
      fun _ _ _ _ _ _ => delivers_fail e
  refine guarded_serve conduct_admits hw ⟨trivial, trivial⟩ fun r w₁ hw₁ ho₁ _ hs₁ => ?_
  cases r with
  | error e => exact delivers_fail _
  | ok sess =>
    obtain ⟨hl₁, hget, _⟩ := hs₁
    obtain ⟨hstored, hhash⟩ := hget sess rfl
    simp only
    apply guarded_now
    have hw₁' : Sound env w₁.tick := inv_tick (D := conduct env) hw₁
    split
    · split
      · exact hrevoke _ _ hw₁'
      · exact delivers_fail _
    rename_i hactive
    split
    · exact delivers_fail _
    refine guarded_serve conduct_admits hw₁' ⟨trivial, trivial⟩ fun r w₂ hw₂ ho₂ _ hs₂ => ?_
    cases r with
    | error e => exact hrevoke _ _ hw₂
    | ok u =>
      obtain ⟨hl₂, hu, _⟩ := hs₂
      have hu : w.ledger.user sess.userID = some u := by
        rw [← hl₁]
        exact hu u rfl
      simp only
      split
      · exact hrevoke _ _ hw₂
      rename_i hdisabled
      apply guarded_newOpaqueToken
      · exact fun e => delivers_fail e
      intro raw hraw
      apply guarded_newUUID
      have hw₂' : Sound env w₂.tick.tick := inv_tick (D := conduct env) (inv_tick (D := conduct env) hw₂)
      have hheld₂ : Held sess w₂.tick.tick := by
        refine ⟨sess, ?_, rfl⟩
        change w₂.ledger.session sess.id = some sess
        rw [hl₂]
        change w₁.ledger.session sess.id = some sess
        rw [hl₁]
        exact hstored
      refine guarded_serve conduct_admits hw₂' ?_ fun r w₃ hw₃ ho₃ _ hs₃ => ?_
      · refine allowed_createSession hf hw₂ (by rfl) ?_ ?_ ?_ ?_ hraw (by rfl) (by rfl) (by rfl)
        all_goals try simp only [World.tick]
        all_goals omega
      cases r with
      | error e => exact delivers_fail _
      | ok _ =>
        obtain ⟨he, _⟩ | ⟨_, he₃⟩ := hs₃
        · cases he
        have hheld₃ : Held sess w₃ := held_onward hheld₂ ho₃
        refine guarded_serve conduct_admits hw₃ (allowed_updateSession hheld₃ (by simp) rfl)
          fun r w₄ hw₄ _ _ hs₄ => ?_
        cases r with
        | error e => exact delivers_fail _
        | ok _ =>
          obtain ⟨he, _⟩ | ⟨_, he₄⟩ := hs₄
          · cases he
          refine delivers_orReturn (D := alone env) (p := sign env cfg u _ _) hw₄ ?_
          refine delivers_mono (fun access w₅ _ hl₅ _ => ?_) (delivers_sign u _ _)
          have hrotated : w₅.ledger.session sess.id = some { sess with
              revokedAt := some (env.clock w₁.ticks), rotatedTo := env.uuid w₂.tick.ticks } := by
            rw [hl₅, he₄]
            exact if_pos rfl
          refine delivers_alone_done ⟨sess, u, hstored, hhash, not_not.mp hactive, hu,
            by simpa using hdisabled, ⟨?_, rfl, ?_⟩, _, hrotated, Option.some_ne_none _,
            hf.uuid_ne _⟩
          · rw [hw.keyed.user hu]
            exact hu
          · rw [hl₅, he₄]
            change w₃.ledger.user = w.ledger.user
            rw [he₃]
            change w₂.ledger.user = w.ledger.user
            rw [hl₂]
            change w₁.ledger.user = w.ledger.user
            rw [hl₁]

/-- The account of an external identity is the stored one of that address, or a
new one without a second factor. -/
theorem delivers_ensureExternalUser (hw : Sound env w) (email name organisation : String) :
    Delivers (alone env) (fun u w' => ∃ v, w'.ledger.user u.id = some v ∧ v.id = u.id ∧
      (v.mfaEnabled = true →
        v = u ∧ normalizeEmail env.cases u.email = normalizeEmail env.cases email))
      (ensureExternalUser env cfg email name organisation) w := by
  have hfound : ∀ {w₁ w₂ : World} {r : Except Err User}, Sound env w₁ →
      Step env.cases w₁.store.total w₁.ledger w₂.ledger
        (.getUserByEmail (normalizeEmail env.cases email)) r → ∀ u, r = .ok u →
      ∃ v, w₂.ledger.user u.id = some v ∧ v.id = u.id ∧ (v.mfaEnabled = true →
        v = u ∧ normalizeEmail env.cases u.email = normalizeEmail env.cases email) := by
    intro w₁ w₂ r hw₁ hs u hr
    obtain ⟨hl, hu⟩ := hs
    obtain ⟨hstored, hemail⟩ := hu u hr
    rw [normalizeEmail_normalizeEmail] at hemail
    exact ⟨u, hl ▸ hstored, rfl, fun _ => ⟨rfl, hemail⟩⟩
  unfold ensureExternalUser
  extract_lets email'
  split
  · exact delivers_fail _
  split
  · exact delivers_fail _
  refine guarded_serve conduct_admits hw ⟨trivial, trivial⟩ fun r w₁ hw₁ _ _ hs₁ => ?_
  cases r with
  | ok existing =>
    simp only
    split
    · exact delivers_fail _
    · exact delivers_alone_done (hfound hw hs₁ existing rfl)
  | error e =>
    apply guarded_newOpaqueToken
    · exact fun e => delivers_fail e
    intro raw _
    apply guarded_hashPassword
    · exact fun e => delivers_fail e
    intro hash _
    apply guarded_newUUID
    have hw₂ : Sound env w₁.tick.tick.tick :=
      inv_tick (D := conduct env) (inv_tick (D := conduct env) (inv_tick (D := conduct env) hw₁))
    refine guarded_serve conduct_admits hw₂ ?_ fun r w₃ hw₃ _ _ hs₃ => ?_
    · exact allowed_createUser hf hw₁ (by rfl) (Nat.le_add_right _ 2) (Nat.lt_succ_self _)
        (by rfl) (by rfl)
    obtain ⟨hr, _⟩ | ⟨rfl, v, hkeeps, _, he⟩ := hs₃
    · cases r with
      | ok _ => cases hr
      | error e =>
        simp only
        split
        · exact guarded_serve_last (o := .getUserByEmail email') conduct_admits hw₃
            ⟨trivial, trivial⟩ fun r w₄ _ _ hs₄ => hfound hw₃ hs₄
        · exact delivers_fail _
    · refine delivers_alone_done ⟨v, ?_, hkeeps.id, fun hm => ?_⟩
      · rw [he]
        exact if_pos hkeeps.id.symm
      · rw [hkeeps.mfaEnabled] at hm
        cases hm

end

end RivicQ.Runs.Outcomes
