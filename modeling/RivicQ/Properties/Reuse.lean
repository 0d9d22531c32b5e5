import RivicQ.Runs.Outcomes

namespace RivicQ.Properties.Reuse

open RivicQ.Lib.GoStrings RivicQ.Lib.Programs RivicQ.Lib.Disciplines
open RivicQ.Authn RivicQ.Authn.Types RivicQ.Authn.Records RivicQ.Authn.Stores
open RivicQ.Authn.Environment RivicQ.Authn.Operations RivicQ.Authn.Worlds RivicQ.Authn.Rules
open RivicQ.Runs.Calls RivicQ.Runs.Conduct RivicQ.Runs.Alone RivicQ.Runs.Outcomes

def rotated (v : Ledger) (id : String) : Prop :=
  ∃ s, v.session id = some s ∧ s.rotatedTo ≠ ""

/-- A session that is written back keeps its rotation mark. -/
def KeepsMark (v : Ledger) (o : StoreOp) : Prop :=
  ∀ s, o = .updateSession s → rotated v s.id → s.rotatedTo ≠ ""

theorem step_rotated {cm : CaseMap} {total : Prop} {v v' : Ledger} {o : StoreOp} {r : o.Reply}
    (hG : Guard v o) (hK : KeepsMark v o) (hs : Step cm total v v' o r) {id : String}
    (h : rotated v id) : rotated v' id := by
  obtain ⟨s, hstored, hr⟩ := h
  obtain he | ⟨s', ho, he⟩ | ⟨now, userID, _, he⟩ := step_session hs
  · exact ⟨s, he ▸ hstored, hr⟩
  · by_cases hid : id = s'.id
    · subst hid
      refine ⟨s', he ▸ if_pos rfl, ?_⟩
      obtain rfl | rfl := ho
      · rw [hG.1] at hstored
        cases hstored
      · exact hK s' rfl ⟨s, hstored, hr⟩
    · exact ⟨s, he ▸ (if_neg hid).trans hstored, hr⟩
  · refine ⟨revoke now userID s, ?_, by rw [revoke_rotatedTo]; exact hr⟩
    rw [he]
    simp only [revokeAll, hstored, Option.map_some]

/-- Rotation marks are never lost. -/
def marks (cm : CaseMap) : Concern cm where
  Inv := fun _ => True
  Rel := fun v w => ∀ id, rotated v id → rotated w id
  Guard := KeepsMark
  refl := fun _ _ h => h
  trans := fun huv hvw id h => hvw id (huv id h)
  step := fun _ hG hK hs => ⟨trivial, fun _ h => step_rotated hG hK hs h⟩

variable {env : Env} {cfg : Config} {w : World}

theorem marks_admits : Admits (minding (marks env.cases)) (fun k => k = .session) := by
  refine admits_minding fun {v o} ho _ _ s hs => ?_
  subst hs
  exact absurd rfl (ho .session rfl)

/-- A session that was just read is written back with the mark it has. -/
theorem guarded_revoke_same {sess : Session} (hw : (minding (marks env.cases)).Inv w)
    (hs : w.ledger.session sess.id = some sess) :
    Guarded (minding (marks env.cases)).alone (fun _ _ => True)
      (now fun t => store (.updateSession { sess with revokedAt := some t })) w := by
  apply guarded_now
  refine guarded_serve_last (o := .updateSession _) marks_admits (inv_tick hw) ⟨?_, ?_⟩
    fun _ _ _ _ _ => trivial
  · exact allowed_updateSession ⟨sess, hs, rfl⟩ (by simp) rfl
  · rintro s hs' ⟨s₀, hs₀, hr⟩
    cases hs'
    rw [show w.ledger.session sess.id = some s₀ from hs₀] at hs
    cases hs
    exact hr

theorem conducts_logout_alone (refreshToken : String) :
    Conducts (minding (marks env.cases)).alone (logout env refreshToken) := by
  refine ⟨fun w hw => ?_⟩
  refine guarded_serve marks_admits hw (guard_plain marks_admits hw trivial)
    fun r w₁ hw₁ _ _ hs => ?_
  cases r with
  | error e => exact guarded_alone_pure trivial
  | ok sess => exact guarded_revoke_same hw₁ (hs.1 ▸ (hs.2.1 sess rfl).1)

theorem conducts_revokeSession_alone (userID sessionID : String) :
    Conducts (minding (marks env.cases)).alone (revokeSession userID sessionID) := by
  refine ⟨fun w hw => ?_⟩
  refine guarded_serve marks_admits hw (guard_plain marks_admits hw trivial)
    fun r w₁ hw₁ _ _ hs => ?_
  cases r with
  | error e => exact guarded_alone_pure trivial
  | ok sess =>
    simp only
    split
    · exact guarded_alone_pure trivial
    · refine guarded_revoke_same hw₁ ?_
      have hstored := hs.2 sess rfl
      rw [hs.1, hw.1.keyed.session hstored]
      exact hstored

theorem conducts_marking (hf : Fresh env) (cfg : Config) (c : Call) :
    Conducts (minding (marks env.cases)).alone (program env cfg c) := by
  have hA : Admits (minding (marks env.cases)).alone (fun k => k = .session) :=
    admits_alone marks_admits
  have hrest : (∀ k ∈ overwritten c, k ≠ .session) →
      Conducts (minding (marks env.cases)).alone (program env cfg c) :=
    conducts_program hf cfg hA c
  cases c with
  | refresh refreshToken userAgent ip =>
    refine conducts_answering (conducts_refresh hA hf cfg (fun w s _ hr _ ha => ⟨ha, ?_⟩) _ _)
    intro s' hs' _
    cases hs'
    exact hr
  | logout refreshToken => exact conducts_answering (conducts_logout_alone _)
  | revokeSession userID sessionID => exact conducts_answering (conducts_revokeSession_alone _ _)
  | _ => exact hrest (by simp [overwritten])

theorem rotated_after (hf : Fresh env) (hw : Sound env w) (c : Call) {id : String}
    (h : rotated w.ledger id) : rotated (after env cfg c w).ledger id := by
  have hg := (conducts_marking hf cfg c).guarded w ⟨hw, trivial⟩
  exact (run_guarded (D := (minding (marks env.cases)).alone) ⟨hw, trivial⟩ hg).2.1.2 id h

theorem rotated_serially (hf : Fresh env) (calls : List Call) (hw : Sound env w) {id : String}
    (h : rotated w.ledger id) : rotated (serially env cfg calls w).ledger id := by
  induction calls generalizing w with
  | nil => exact h
  | cons c calls ih => exact ih (sound_after hf cfg hw c).1 (rotated_after hf hw c h)

/-- A revoked session yields no tokens. -/
theorem refresh_revoked (hf : Fresh env) (hw : Sound env w) {s : Session}
    (hs : w.ledger.session s.id = some s) (hr : s.revokedAt ≠ none)
    {refreshToken : String} (hhash : s.refreshHash = trimSpace (hashToken env refreshToken))
    (userAgent ip : String) (b : Answer) :
    outcome env cfg (.refresh refreshToken userAgent ip) w ≠ .ok b := by
  intro h
  obtain ⟨_, _, sess, _, hsess, hhash', hactive, _⟩ :=
    after_delivers (c := .refresh refreshToken userAgent ip) (by rfl) hw
      (delivers_refresh hf hw refreshToken userAgent ip) h
  have hid := hw.keyed.refreshHash hs hsess (hhash.trans hhash'.symm)
  rw [hid, hsess] at hs
  cases hs
  exact hr hactive

theorem revoked_forever (hf : Fresh env) (hw : Sound env w) {s : Session}
    (hs : w.ledger.session s.id = some s) (hr : s.revokedAt ≠ none) (calls : List Call) :
    (∃ s', (serially env cfg calls w).ledger.session s.id = some s' ∧ s'.revokedAt ≠ none) ∧
      ∀ refreshToken, s.refreshHash = trimSpace (hashToken env refreshToken) →
        ∀ userAgent ip b, outcome env cfg (.refresh refreshToken userAgent ip)
          (serially env cfg calls w) ≠ .ok b := by
  obtain ⟨hsound, honward⟩ := sound_serially hf cfg calls hw
  obtain ⟨s', hs', hi, hr'⟩ := honward.ledger.session hs
  refine ⟨⟨s', hs', hr' hr⟩, fun refreshToken hhash => ?_⟩
  refine refresh_revoked hf hsound (s := s') ?_ (hr' hr) ?_
  · rw [id_of_identity hi]
    exact hs'
  · rw [refreshHash_of_identity hi]
    exact hhash

/-- A rotated token is answered with the reuse error and ends every session of
its user. -/
theorem refresh_rotated (cfg : Config) (hw : Sound env w) (htotal : w.store.total) {s : Session}
    (hs : w.ledger.session s.id = some s) (hrot : s.rotatedTo ≠ "") {refreshToken : String}
    (hhash : s.refreshHash = trimSpace (hashToken env refreshToken)) (userAgent ip : String) :
    outcome env cfg (.refresh refreshToken userAgent ip) w = .error .reuseDetected ∧
      ∀ id s', (after env cfg (.refresh refreshToken userAgent ip) w).ledger.session id = some s' →
        s'.userID = s.userID → s'.revokedAt ≠ none := by
  have hg : Guarded (alone env) (fun r w' => r = .error .reuseDetected ∧
      ∀ id s', w'.ledger.session id = some s' → s'.userID = s.userID → s'.revokedAt ≠ none)
      (refresh env cfg refreshToken userAgent ip) w := by
    refine guarded_serve conduct_admits hw ⟨trivial, trivial⟩ fun r w₁ hw₁ ho₁ _ hs₁ => ?_
    obtain ⟨hl₁, _, hfound⟩ := hs₁
    rw [hfound htotal s.id s hs hhash]
    simp only
    apply guarded_now
    rw [if_pos (hw.retired s.id s hs hrot), if_pos hrot]
    have hw₁' : Sound env w₁.tick := inv_tick (D := conduct env) hw₁
    refine guarded_serve conduct_admits hw₁' ⟨trivial, trivial⟩ fun r w₂ _ _ _ hs₂ => ?_
    refine guarded_alone_pure ⟨rfl, fun id s' hs' huser => ?_⟩
    obtain ⟨_, _, hfault⟩ | ⟨_, now, he⟩ := hs₂
    · exact absurd (ho₁.total ▸ htotal) hfault
    · rw [he] at hs'
      obtain ⟨s₀, _, rfl⟩ := Option.map_eq_some_iff.mp hs'
      rw [userID_of_identity (identity_revoke now s.userID s₀)] at huser
      exact revoke_revokedAt now s.userID s₀ (Or.inr huser)
  obtain ⟨r, hr, hreuse, hrevoked⟩ := after_guarded (D := conduct env)
    (c := .refresh refreshToken userAgent ip) (by rfl) hw hg
  rw [hr, hreuse]
  exact ⟨rfl, hrevoked⟩

/-- In serial runs on the in-memory store a refresh token is accepted at most
once; a rotated one is answered, from then on, with the reuse error, which ends
the sessions of its user; and a revoked session stays revoked and yields no
tokens. -/
theorem refresh_serial (hf : Fresh env) (cfg : Config) (calls : List Call) (w : World)
    (hw : w = serially env cfg calls (start (.memory Memory.empty))) (calls' : List Call) :
    (∀ refreshToken userAgent ip a,
      outcome env cfg (.refresh refreshToken userAgent ip) w = .ok a →
      ∀ userAgent' ip' b, outcome env cfg (.refresh refreshToken userAgent' ip')
        (serially env cfg calls' (after env cfg (.refresh refreshToken userAgent ip) w)) ≠
          .ok b) ∧
    (∀ s refreshToken, w.ledger.session s.id = some s →
      s.refreshHash = trimSpace (hashToken env refreshToken) → s.rotatedTo ≠ "" →
      ∀ userAgent ip, outcome env cfg (.refresh refreshToken userAgent ip)
          (serially env cfg calls' w) = .error .reuseDetected ∧
        ∀ id s', (after env cfg (.refresh refreshToken userAgent ip)
            (serially env cfg calls' w)).ledger.session id = some s' →
          s'.userID = s.userID → ∀ t, s'.active t = false) ∧
    (∀ s, w.ledger.session s.id = some s → s.revokedAt ≠ none →
      (∃ s', (serially env cfg calls' w).ledger.session s.id = some s' ∧ s'.revokedAt ≠ none) ∧
      ∀ refreshToken, s.refreshHash = trimSpace (hashToken env refreshToken) →
        ∀ userAgent ip b, outcome env cfg (.refresh refreshToken userAgent ip)
          (serially env cfg calls' w) ≠ .ok b) := by
  subst hw
  have hstart : Sound env (start (.memory Memory.empty)) := sound_start (Or.inl rfl)
  obtain ⟨hsound, honward⟩ := sound_serially hf cfg calls hstart
  obtain ⟨hsound', honward'⟩ := sound_serially hf cfg calls' hsound
  have htotal : (serially env cfg calls' (serially env cfg calls
      (start (.memory Memory.empty)))).store.total := by
    rw [honward'.total, honward.total]
    trivial
  refine ⟨fun refreshToken userAgent ip a h => ?_, fun s refreshToken hs hhash hrot userAgent ip => ?_,
    fun s hs hr => revoked_forever hf hsound hs hr calls'⟩
  · obtain ⟨_, _, sess, _, hsess, hhash, _, _, _, _, s', hs', hr', _⟩ :=
      after_delivers (c := .refresh refreshToken userAgent ip) (by rfl) hsound
        (delivers_refresh hf hsound refreshToken userAgent ip) h
    obtain ⟨hsound₁, honward₁⟩ := sound_after hf cfg hsound (.refresh refreshToken userAgent ip)
    obtain ⟨s'', hs'', hi, _⟩ := honward₁.ledger.session hsess
    rw [hs'] at hs''
    cases hs''
    rw [← id_of_identity hi] at hs'
    exact (revoked_forever hf hsound₁ hs' hr' calls').2 refreshToken
      ((refreshHash_of_identity hi).trans hhash)
  · obtain ⟨s', hs', hi, _⟩ := honward'.ledger.session hs
    obtain ⟨s'', hs'', hrot'⟩ := rotated_serially hf calls' hsound ⟨s, hs, hrot⟩
    rw [hs'] at hs''
    cases hs''
    rw [← id_of_identity hi] at hs'
    obtain ⟨hreuse, hrevoked⟩ := refresh_rotated cfg hsound' htotal hs' hrot'
      ((refreshHash_of_identity hi).trans hhash) userAgent ip
    refine ⟨hreuse, fun id s₁ hs₁ huser t => ?_⟩
    exact inactive_of_revoked (hrevoked id s₁ hs₁
      (huser.trans (userID_of_identity hi).symm)) t

/-- The session is refreshed and its token presented once more. -/
theorem refresh_again :
    outcome plain demoConfig (.refresh "aaaaaaaa" "" "")
      (demo (signedIn ++ [.refresh "aaaaaaaa" "" ""])) = .error .reuseDetected := by
  have hstored : ∃ s ∈ (demo (signedIn ++ [.refresh "aaaaaaaa" "" ""])).ledger.session "000000000",
      s.id = "000000000" ∧ s.refreshHash = trimSpace (hashToken plain "aaaaaaaa") ∧
        s.rotatedTo ≠ "" := by
    decide +kernel
  obtain ⟨s, hs, hid, hhash, hrot⟩ := hstored
  rw [← hid] at hs
  exact ((refresh_serial fresh_plain demoConfig _ _ rfl []).2.1 s "aaaaaaaa" hs hhash hrot "" "").1

end RivicQ.Properties.Reuse
