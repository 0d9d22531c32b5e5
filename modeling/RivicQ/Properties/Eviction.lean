import RivicQ.Lib.Disciplines
import RivicQ.Runs.Alone

namespace RivicQ.Properties.Eviction

open RivicQ.Lib.GoStrings RivicQ.Lib.Programs RivicQ.Lib.Pools RivicQ.Lib.Disciplines
open RivicQ.Lib.Closings RivicQ.Authn.Types RivicQ.Authn.Records RivicQ.Authn.Stores
open RivicQ.Authn.Environment RivicQ.Authn.Operations RivicQ.Authn.Worlds RivicQ.Authn.Rules
open RivicQ.Runs.Calls RivicQ.Runs.Conduct

/-- The sessions of a user are revoked. -/
def Evicts : (o : Op) → o.Reply → Prop
  | .store (.revokeSessionsForUser _), r => r = .ok ()
  | _, _ => False

def opened : Op → Option Session
  | .store (.createSession s) => some s
  | _ => none

variable (env : Env) (cfg : Config)

/-- Once the reset has succeeded, no session is opened for its account. -/
def NoneOpened (rawToken : String) (c : Pool Calls World (Except Err Answer)) (o : Op) (w : World) :
    Prop :=
  ∀ s ∈ opened o, (c.returned 0).map Except.isOk = some true →
    ∀ t ∈ w.ledger.token (trimSpace (hashToken env rawToken)), s.userID ≠ t.userID

instance (rawToken : String) (c : Pool Calls World (Except Err Answer)) (o : Op) (w : World) :
    Decidable (NoneOpened env rawToken c o w) :=
  inferInstanceAs (Decidable (∀ s ∈ opened o, (c.returned 0).map Except.isOk = some true →
    ∀ t ∈ w.ledger.token (trimSpace (hashToken env rawToken)), s.userID ≠ t.userID))

/-- Every session of the account the token stands for is revoked. -/
def Evicted (rawToken : String) (w : World) : Prop :=
  ∃ t, w.ledger.token (trimSpace (hashToken env rawToken)) = some t ∧
    ∀ id s, w.ledger.session id = some s → s.userID = t.userID → s.revokedAt ≠ none

/-- Only the sessions of the account the token stands for are revoked at once. -/
def evicting (rawToken : String) : Discipline (handle env) :=
  (conduct env).asking fun w o =>
    ∀ id, o = .store (.revokeSessionsForUser id) → Owned env rawToken id w

/-- A password reset beside refreshes by some clients. -/
def resetAmong (rawToken newPassword : String) (clients : List (String × String × String)) :
    List Call :=
  .resetPassword rawToken newPassword :: clients.map fun c => .refresh c.1 c.2.1 c.2.2

variable {env} {rawToken : String}

theorem uses_loadToken (rawToken : String) (purpose : TokenPurpose) :
    Uses (S := Calls) (fun o => ∀ id, o ≠ Op.store (.revokeSessionsForUser id))
      (loadToken env rawToken purpose) := by
  refine uses_request.mpr ⟨by simp, fun r => ?_⟩
  cases r with
  | error e => exact uses_pure _
  | ok tok =>
    simp only [Program.pure_bind]
    split
    · exact uses_pure _
    split
    · exact uses_pure _
    refine uses_request.mpr ⟨by simp, fun t => ?_⟩
    split
    · exact uses_pure _
    refine uses_request.mpr ⟨by simp, fun r => ?_⟩
    cases r <;> exact uses_pure _

/-- A harmless request of a reset leaves the token with its owner. -/
theorem guarded_owned {β : Type} {Post : Except Err β → World → Prop} {w : World} {id : String}
    (hw : Sound env w) (ho : Owned env rawToken id w) {o : StoreOp} {k : o.Reply → Prog β}
    (ha : Allowed env w (.store o)) (hne : ∀ id, o ≠ .revokeSessionsForUser id)
    (hk : ∀ r w', Sound env w' → Owned env rawToken id w' →
      Guarded (evicting env rawToken) Post (k r) w') :
    Guarded (evicting env rawToken) Post ((store o).bind k) w := by
  apply guarded_store
  · exact ⟨ha, fun id h => absurd (Op.store.inj h) (hne id)⟩
  intro w' hr hw'
  exact hk _ w' hw'.1 (owned_onward ho (onward_trans (sound_handle hw ha).2 hr.1))

/-- A reset revokes the sessions of the account its token stands for. -/
theorem guarded_reset {w : World} (hw : Sound env w) (newPassword : String) :
    Guarded (evicting env rawToken) (fun _ _ => True) (resetPassword env rawToken newPassword) w := by
  have hload : Guarded (evicting env rawToken) (fun r w' => ∀ tok u, r = .ok (tok, u) →
      tok.hash = trimSpace (hashToken env rawToken) ∧ Owned env rawToken u.id w')
      (loadToken env rawToken .resetPassword) w := by
    refine guarded_transfer (D := conduct env) ?_ ?_ ?_ ⟨hw, trivial⟩
      (uses_loadToken rawToken .resetPassword) (guarded_loadToken conduct_admits hw)
    · exact fun _ hi => hi.1
    · exact fun hr => hr.1
    · exact fun o _ ho _ ha => ⟨ha, fun id h => absurd h (ho id)⟩
  have hfail : ∀ {w' : World} (e : Err), Sound env w' →
      Guarded (evicting env rawToken) (fun _ _ => True) (fail e : Prog Unit) w' :=
    fun e hw' => (conducts_fail e).guarded _ ⟨hw', trivial⟩
  refine guarded_orReturn (D := evicting env rawToken) ⟨hw, trivial⟩ ?_
  refine guarded_mono (fun r w₁ hw₁ hr => ⟨fun e _ => hfail e hw₁.1, fun t ht => ?_⟩) hload
  obtain ⟨tok, u⟩ := t
  have howned := (hr tok u ht).2
  simp only
  split
  · exact hfail _ hw₁.1
  apply guarded_hashPassword
  · exact fun e => hfail e (inv_tick (D := conduct env) hw₁.1)
  intro hash _
  refine guarded_owned (inv_tick (D := conduct env) hw₁.1) (show Owned env _ _ w₁.tick from howned)
    ⟨trivial, trivial⟩ (by simp) fun r w₂ hw₂ ho₂ => ?_
  cases r with
  | error e => exact hfail e hw₂
  | ok _ =>
    refine guarded_owned hw₂ ho₂ ⟨trivial, trivial⟩ (by simp) fun r w₃ hw₃ ho₃ => ?_
    cases r with
    | error e => exact hfail e hw₃
    | ok _ =>
      refine (guarded_yield (by rfl)).mpr ⟨⟨⟨trivial, trivial⟩, fun id h => ?_⟩, fun _ _ _ => ?_⟩
      · cases h
        exact ho₃
      · exact guarded_pure.mpr fun _ _ _ => trivial

theorem closes_fail {α : Type} (e : Err) : Closes (S := Calls) Evicts Failed (fail e : Prog α) :=
  closes_pure.mpr trivial

theorem closes_orReturn {α β : Type} {p : Prog α} {k : α → Prog β}
    (hk : ∀ a, Closes (S := Calls) Evicts Failed (k a)) :
    Closes (S := Calls) Evicts Failed (orReturn p k) := by
  refine closes_of_forall fun r => ?_
  cases r with
  | error e => exact closes_fail e
  | ok a => exact hk a

theorem closes_reset (newPassword : String) :
    Closes (S := Calls) Evicts Failed (program env cfg (.resetPassword rawToken newPassword)) := by
  have hcore : Closes (S := Calls) Evicts Failed (resetPassword env rawToken newPassword) := by
    refine closes_orReturn fun t => ?_
    simp only
    split
    · exact closes_fail _
    refine closes_orReturn fun hash => closes_orReturn fun _ => closes_orReturn fun _ => ?_
    refine closes_request.mpr fun r => ?_
    cases r with
    | error e => exact Or.inr (closes_fail e)
    | ok _ => exact Or.inl ⟨rfl, _, rfl⟩
  refine closes_bind_pure hcore fun r => ?_
  cases r with
  | error e => exact ⟨_, rfl, fun _ => trivial⟩
  | ok a => exact ⟨_, rfl, fun h => h.elim⟩

theorem evicted_of_evicts {o : Op} {w : World} (hw : Sound env w)
    (hG : (evicting env rawToken).Guard w o) (hf : Evicts o (handle env o w).1) :
    Evicted env rawToken (handle env o w).2 := by
  unfold Evicts at hf
  split at hf
  · rename_i userID
    obtain ⟨t, ht, hid⟩ := hG.2 userID rfl
    obtain ⟨hr, _⟩ | ⟨_, now, he⟩ := (handle_store hw (.revokeSessionsForUser userID) trivial).2
    · rw [hf] at hr
      cases hr
    refine ⟨t, by rw [he]; exact ht, fun id s hs huser => ?_⟩
    rw [he] at hs
    obtain ⟨s₀, _, rfl⟩ := Option.map_eq_some_iff.mp hs
    rw [userID_of_identity (identity_revoke now userID s₀), hid] at huser
    exact revoke_revokedAt now userID s₀ (Or.inr huser)
  · exact hf.elim

theorem evicted_local {o : Op} (hy : o.yields = false) {w : World} (h : Evicted env rawToken w) :
    Evicted env rawToken (handle env o w).2 := by
  have ho : ∀ o', o ≠ .store o' := fun o' ho => by rw [ho] at hy; cases hy
  have hl : (handle env o w).2.ledger = w.ledger :=
    congrArg Store.ledger (@store_handle env o ho w).1
  unfold Evicted
  rw [hl]
  exact h

/-- Only opening a session undoes the eviction. -/
theorem evicted_keeps {o : Op} {w : World} (hw : Sound env w) (ha : Allowed env w o)
    (h : Evicted env rawToken w)
    (hP : ∀ s ∈ opened o, ∀ t ∈ w.ledger.token (trimSpace (hashToken env rawToken)),
      s.userID ≠ t.userID) : Evicted env rawToken (handle env o w).2 := by
  obtain ⟨t, ht, hall⟩ := h
  obtain ⟨t', ht', hissued, _⟩ := (sound_handle hw ha).2.ledger.token ht
  have howner : t'.userID = t.userID := (congrArg Token.userID hissued :)
  refine ⟨t', ht', fun id s hs huser => ?_⟩
  rw [howner] at huser
  by_cases ho : ∃ o', o = .store o'
  · obtain ⟨o, rfl⟩ := ho
    obtain he | ⟨s', ho, he⟩ | ⟨now, userID, _, he⟩ := step_session (handle_store hw o ha.1).2
    · exact hall id s (he ▸ hs) huser
    · rw [he] at hs
      simp only [putSession] at hs
      split at hs
      · cases hs
        obtain rfl | rfl := ho
        · exact absurd huser (hP s rfl t ht)
        · exact ha.1.1
      · exact hall id s hs huser
    · rw [he] at hs
      obtain ⟨s₀, hs₀, rfl⟩ := Option.map_eq_some_iff.mp hs
      rw [userID_of_identity (identity_revoke now userID s₀)] at huser
      exact revoke_revokedAt now userID s₀ (Or.inl (hall id s₀ hs₀ huser))
  · have hl : (handle env o w).2.ledger = w.ledger :=
      congrArg Store.ledger (@store_handle env o (fun o' he => ho ⟨o', he⟩) w).1
    rw [hl] at hs
    exact hall id s hs huser

theorem evicted_of_reset (hf : Fresh env) {w : World} (hw : Reachable env cfg w)
    (newPassword : String) (clients : List (String × String × String)) (sched : List Nat)
    (hrun : (together env cfg (resetAmong rawToken newPassword clients) w).Along (handle env)
      (NoneOpened env rawToken) sched) {a : Answer}
    (h : ((together env cfg (resetAmong rawToken newPassword clients) w).run (handle env)
      sched).returned 0 = some (.ok a)) :
    Evicted env rawToken ((together env cfg (resetAmong rawToken newPassword clients) w).run
      (handle env) sched).world := by
  have hsound := reachable_sound hf cfg hw
  have hkept := kept_together hf cfg hsound (resetAmong rawToken newPassword clients)
  have hstart : Closing (conduct env) (evicting env rawToken) Evicts Failed (Evicted env rawToken) 0
      (together env cfg (resetAmong rawToken newPassword clients) w) := by
    refine ⟨hkept, fun p hp => Or.inl ?_⟩
    cases hp
    refine ⟨fun w' _ hw' => guarded_orReturn (D := evicting env rawToken) hw' ?_,
      closes_reset cfg newPassword⟩
    refine guarded_mono (fun r w'' hw'' _ => ⟨fun e _ => ?_, fun _ _ => ?_⟩)
      (guarded_reset hw'.1 newPassword)
    · exact (conducts_fail e).guarded w'' hw''
    · exact (conducts_done _).guarded w'' hw''
  refine goal_of_closing (closing_run (P := NoneOpened env rawToken) hstart (fun h => h)
    (fun hr => ⟨hr, trivial⟩) (fun hi => ⟨hi, trivial⟩) ?_ ?_ (fun o w hy => evicted_local hy) ?_
    sched hrun) h (not_failed_ok a)
  · intro o r hfire
    unfold Evicts at hfire
    split at hfire
    · rfl
    · exact hfire.elim
  · exact fun o v hv hG hfire => evicted_of_evicts hv.1 hG hfire
  · intro c o v hv ha hP hret hgoal
    refine evicted_keeps hv ha hgoal fun s hs t ht => hP s hs ?_ t ht
    obtain ⟨r, hr, hok⟩ := hret
    rw [hr]
    cases r with
    | error e => exact absurd trivial hok
    | ok _ => rfl

/-- A successful reset leaves no session of the account active in every
interleaving in which none is opened for it afterwards. -/
theorem reset_ends_sessions (hf : Fresh env) {w : World} (hw : Reachable env cfg w)
    (newPassword : String) (clients : List (String × String × String)) (sched : List Nat)
    (hrun : (together env cfg (resetAmong rawToken newPassword clients) w).Along (handle env)
      (NoneOpened env rawToken) sched) {a : Answer}
    (h : ((together env cfg (resetAmong rawToken newPassword clients) w).run (handle env)
      sched).returned 0 = some (.ok a)) :
    ∃ t, ((together env cfg (resetAmong rawToken newPassword clients) w).run (handle env)
        sched).world.ledger.token (trimSpace (hashToken env rawToken)) = some t ∧
      ∀ id s, ((together env cfg (resetAmong rawToken newPassword clients) w).run (handle env)
        sched).world.ledger.session id = some s → s.userID = t.userID →
        ∀ now, s.active now = false := by
  obtain ⟨t, ht, hall⟩ := evicted_of_reset cfg hf hw newPassword clients sched hrun h
  exact ⟨t, ht, fun id s hs huser => inactive_of_revoked (hall id s hs huser)⟩

/-- A user with an open session has asked for a reset token. -/
def signedInForgotten : List Call := signedIn ++ [.forgotPassword "ada@example.org"]

/-- The reset beside one refresh of the session. -/
def resetAndRefresh (sched : List Nat) : Pool Calls World (Except Err Answer) :=
  (together plain demoConfig
    (resetAmong "aaaaaaaaaaaaaaa" "N3w-passphrase" [("aaaaaaaa", "", "")])
    (demo signedInForgotten)).run (handle plain) sched

/-- The refresh comes first: the reset ends its successor too. -/
theorem reset_ends_successor : ∃ t,
    (resetAndRefresh [1, 1, 1, 1, 1, 0, 0, 0, 0, 0]).world.ledger.token
      (trimSpace (hashToken plain "aaaaaaaaaaaaaaa")) = some t ∧
      ∀ id s, (resetAndRefresh [1, 1, 1, 1, 1, 0, 0, 0, 0, 0]).world.ledger.session id = some s →
        s.userID = t.userID → ∀ now, s.active now = false := by
  obtain ⟨a, ha⟩ := exists_ok (by decide +kernel :
    ((resetAndRefresh [1, 1, 1, 1, 1, 0, 0, 0, 0, 0]).returned 0).map Except.isOk = some true)
  exact reset_ends_sessions demoConfig fresh_plain (reachable_demo signedInForgotten) _ _ _
    (by decide +kernel) ha

/-- The refresh reads the session before the reset and opens the successor after
it; the successor stays active. -/
theorem reset_misses_successor : ¬ ∀ (w : World) (rawToken newPassword : String)
    (clients : List (String × String × String)) (sched : List Nat)
    (c : Pool Calls World (Except Err Answer)), Reachable plain demoConfig w →
    c = (together plain demoConfig (resetAmong rawToken newPassword clients) w).run
      (handle plain) sched →
    (∀ i < clients.length + 1, ∃ r, c.returned i = some r) → (∃ a, c.returned 0 = some (.ok a)) →
    ∀ t s s' s'', w.ledger.token (trimSpace (hashToken plain rawToken)) = some t →
      w.ledger.session s.id = some s → s.userID = t.userID →
      c.world.ledger.session s.id = some s' → c.world.ledger.session s'.rotatedTo = some s'' →
      s''.active (plain.clock c.world.ticks) = false := by
  intro h
  have hall : ∀ i < 2, ((resetAndRefresh [1, 1, 0, 0, 0, 0, 0, 1, 1, 1]).returned i).isSome = true := by
    decide +kernel
  obtain ⟨a, ha⟩ := exists_ok (by decide +kernel :
    ((resetAndRefresh [1, 1, 0, 0, 0, 0, 0, 1, 1, 1]).returned 0).map Except.isOk = some true)
  have hfound : ∃ t ∈ (demo signedInForgotten).ledger.token
        (trimSpace (hashToken plain "aaaaaaaaaaaaaaa")),
      ∃ s ∈ (demo signedInForgotten).ledger.session "000000000", s.id = "000000000" ∧
        s.userID = t.userID ∧
        ∃ s' ∈ (resetAndRefresh [1, 1, 0, 0, 0, 0, 0, 1, 1, 1]).world.ledger.session "000000000",
          ∃ s'' ∈ (resetAndRefresh [1, 1, 0, 0, 0, 0, 0, 1, 1, 1]).world.ledger.session s'.rotatedTo,
            s''.active (plain.clock
              (resetAndRefresh [1, 1, 0, 0, 0, 0, 0, 1, 1, 1]).world.ticks) = true := by
    decide +kernel
  obtain ⟨t, ht, s, hs, hid, huser, s', hs', s'', hs'', hactive⟩ := hfound
  rw [← hid] at hs hs'
  have hinactive := h (demo signedInForgotten) "aaaaaaaaaaaaaaa" "N3w-passphrase" [("aaaaaaaa", "", "")]
    [1, 1, 0, 0, 0, 0, 0, 1, 1, 1] _ (reachable_demo signedInForgotten) rfl
    (fun i hi => Option.isSome_iff_exists.mp (hall i hi)) ⟨a, ha⟩ t s s' s'' ht hs huser hs' hs''
  exact Bool.false_ne_true (hinactive.symm.trans hactive)

end RivicQ.Properties.Eviction
