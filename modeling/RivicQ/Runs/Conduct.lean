import RivicQ.Authn.Rules
import RivicQ.Runs.Calls

namespace RivicQ.Runs.Conduct

open RivicQ.Lib.GoStrings RivicQ.Lib.Programs RivicQ.Lib.Pools RivicQ.Lib.Disciplines
open RivicQ.Authn.Types RivicQ.Authn.Records RivicQ.Authn.Stores RivicQ.Authn.Environment
open RivicQ.Authn.Operations RivicQ.Authn.Handlers RivicQ.Authn.Worlds RivicQ.Authn.Rules
open RivicQ.Shared.OAuth RivicQ.Runs.Calls

variable {α β : Type} {env : Env} {D : Discipline (handle env)} {Special : Kind → Prop}

theorem conducts_done (a : α) : Conducts D (done a) := conducts_pure _

theorem conducts_fail (e : Err) : Conducts D (fail e : Prog α) := conducts_pure _

theorem conducts_orReturn {p : Prog α} {k : α → Prog β} (hp : Conducts D p)
    (hk : ∀ a, Conducts D (k a)) : Conducts D (orReturn p k) := by
  refine conducts_bind hp fun r => ?_
  cases r with
  | error e => exact conducts_fail e
  | ok a => exact hk a

theorem conducts_orFail {p : Prog α} {e : Err} {k : α → Prog β} (hp : Conducts D p)
    (hk : ∀ a, Conducts D (k a)) : Conducts D (orFail p e k) := by
  refine conducts_bind hp fun r => ?_
  cases r with
  | error e => exact conducts_fail _
  | ok a => exact hk a

theorem conducts_answering {f : α → Answer} {p : Prog α} (hp : Conducts D p) :
    Conducts D (answering f p) := conducts_orReturn hp fun a => conducts_done (f a)

theorem conducts_local {o : Op} {k : o.Reply → Program Calls α} (hy : o.yields = false)
    (hk : ∀ r, Conducts D (k r)) : Conducts D (.request (o : Calls.Op) k) :=
  conducts_request (fun _ _ hy' => by rw [show Calls.yields o = false from hy] at hy'; cases hy') hk

theorem conducts_totpValid {u : User} {code : String} {k : Bool → Prog β}
    (hk : ∀ valid, Conducts D (k valid)) : Conducts D (totpValid u code k) := by
  unfold totpValid
  split
  · exact hk false
  · exact conducts_local rfl hk

theorem conducts_sign (cfg : Config) (u : User) (edition : Edition) (issuedAt : Time) :
    Conducts D (sign env cfg u edition issuedAt) := conducts_local rfl fun _ => conducts_pure _

theorem inv_tick {w : World} (hw : D.Inv w) : D.Inv w.tick := (D.keeps_local Op.now w rfl hw).1

/-- Requests that are allowed in any world and overwrite nothing. -/
def Plain : Op → Prop
  | .store (.createUser _) | .store (.createSession _) | .store (.createToken _)
  | .store (.updateUser _) | .store (.updateSession _) | .store (.markTokenUsed _) => False
  | _ => True

theorem plain_spec {o : Op} (ho : Plain o) (w : World) :
    Allowed env w o ∧ overwrites o = none := by
  cases o with
  | store o => cases o <;> first | exact ho.elim | exact ⟨⟨trivial, trivial⟩, rfl⟩
  | _ => exact ⟨trivial, rfl⟩

section Generic

variable (hA : Admits D Special)
include hA

theorem guard_plain {w : World} (hw : D.Inv w) {o : Op} (ho : Plain o) : D.Guard w o := by
  obtain ⟨ha, hn⟩ := plain_spec ho w
  refine hA.guard (fun k hk => ?_) hw ha
  rw [hn] at hk
  cases hk

theorem conducts_plain {o : Op} {k : o.Reply → Program Calls β} (ho : Plain o)
    (hk : ∀ r, Conducts D (k r)) : Conducts D (.request (o : Calls.Op) k) :=
  conducts_request (fun _ hw _ => guard_plain hA hw ho) hk

theorem conducts_store {o : StoreOp} (ho : Plain (.store o)) : Conducts D (store o) :=
  conducts_plain hA ho conducts_pure

theorem conducts_updateUser (hU : ¬ Special .user) (u : User) :
    Conducts D (store (.updateUser u)) := by
  refine conducts_request (fun w hw _ => hA.guard (fun k hk => ?_) hw ⟨trivial, trivial⟩) conducts_pure
  cases hk
  exact hU

/-- A token that loads is the one the raw token stands for. -/
theorem guarded_loadToken {raw : String} {purpose : TokenPurpose} {w : World} (hw : D.Inv w) :
    Guarded D (fun r w' => ∀ tok u, r = .ok (tok, u) →
      tok.hash = trimSpace (hashToken env raw) ∧ Owned env raw u.id w')
      (loadToken env raw purpose) w := by
  have hfail : ∀ (e : Err) (w' : World), Guarded D (fun r w' => ∀ tok u, r = .ok (tok, u) →
      tok.hash = trimSpace (hashToken env raw) ∧ Owned env raw u.id w')
      (fail e : Prog (Token × User)) w' :=
    fun e w' => guarded_pure.mpr fun w'' _ _ tok u h => by cases h
  have hplain : ∀ {w' : World} (o : StoreOp), Plain (.store o) → Allowed env w' (.store o) :=
    fun o ho => (plain_spec ho _).1
  apply guarded_store
  · exact guard_plain hA hw trivial
  intro w₁ hr₁ hw₁
  have hon₁ := onward_step hA hw (hplain (.getToken (hashToken env raw)) trivial) hr₁
  have hget := (handle_store (hA.sound hw) (.getToken (hashToken env raw)) trivial).2.2
  cases hr : (handle env (.store (.getToken (hashToken env raw))) w).1 with
  | error e => exact hfail _ _
  | ok tok =>
    have hstored := hget tok hr
    simp only
    split
    · exact hfail _ _
    split
    · exact hfail _ _
    apply guarded_now
    split
    · exact hfail _ _
    apply guarded_store
    · exact guard_plain hA (inv_tick hw₁) trivial
    intro w₂ hr₂ hw₂
    have hon₂ := onward_step hA (inv_tick hw₁) (hplain (.getUserByID tok.userID) trivial) hr₂
    have huser := (handle_store (hA.sound (inv_tick hw₁)) (.getUserByID tok.userID) trivial).2.2.1
    cases hru : (handle env (.store (.getUserByID tok.userID)) w₁.tick).1 with
    | error e => exact hfail _ _
    | ok u =>
      have hid : u.id = tok.userID := (hA.sound (inv_tick hw₁)).keyed.user (huser u hru)
      have howned : Owned env raw u.id w₁ := owned_onward ⟨tok, hstored, hid.symm⟩ hon₁
      refine guarded_pure.mpr fun w₃ hr₃ _ tok' u' h => ?_
      cases h
      exact ⟨(hA.sound hw).keyed.token hstored,
        owned_onward (owned_onward (show Owned env raw u.id w₁.tick from howned) hon₂)
          (hA.onward hr₃)⟩

/-- What the discipline must grant a call that marks the token it presents. -/
def MarksOwn (D : Discipline (handle env)) (raw : String) : Prop :=
  ∀ w hash, hash = trimSpace (hashToken env raw) → D.Inv w →
    D.Guard w (.store (.markTokenUsed hash))

theorem marksOwn_of_not_special (hT : ¬ Special .token) (raw : String) : MarksOwn D raw := by
  refine fun w hash _ hw => hA.guard (fun k hk => ?_) hw ⟨trivial, trivial⟩
  cases hk
  exact hT

section Loaded

variable {raw : String} {purpose : TokenPurpose} {k : Token × User → Prog β}
variable (hk : ∀ tok u, tok.hash = trimSpace (hashToken env raw) → Conducts D (k (tok, u)))
include hk

theorem conducts_loaded_orReturn : Conducts D (orReturn (loadToken env raw purpose) k) := by
  refine ⟨fun w hw => guarded_orReturn hw ?_⟩
  refine guarded_mono (fun r w' hw' hr => ⟨fun e _ => ?_, fun t ht => ?_⟩)
    (guarded_loadToken hA hw)
  · exact (conducts_fail e).guarded w' hw'
  · exact (hk t.1 t.2 (hr t.1 t.2 ht).1).guarded w' hw'

theorem conducts_loaded_orFail {e : Err} : Conducts D (orFail (loadToken env raw purpose) e k) := by
  refine ⟨fun w hw => guarded_orFail hw ?_⟩
  refine guarded_mono (fun r w' hw' hr => ⟨fun _ _ => ?_, fun t ht => ?_⟩)
    (guarded_loadToken hA hw)
  · exact (conducts_fail e).guarded w' hw'
  · exact (hk t.1 t.2 (hr t.1 t.2 ht).1).guarded w' hw'

end Loaded

omit hA in
theorem conducts_mark {raw : String} (hM : MarksOwn D raw) {tok : Token}
    (ht : tok.hash = trimSpace (hashToken env raw)) :
    Conducts D (store (.markTokenUsed tok.hash)) :=
  conducts_request (fun w hw _ => hM w tok.hash ht hw) conducts_pure

theorem conducts_verifyEmail (hU : ¬ Special .user) {rawToken : String}
    (hM : MarksOwn D rawToken) : Conducts D (verifyEmail env rawToken) := by
  refine conducts_orReturn ?_ fun u => conducts_updateUser hA hU _
  refine conducts_loaded_orReturn hA fun tok u ht => ?_
  exact conducts_orReturn (conducts_mark hM ht) fun _ => conducts_done _

theorem conducts_resetPassword (hU : ¬ Special .user) {rawToken : String}
    (hM : MarksOwn D rawToken) (newPassword : String) :
    Conducts D (resetPassword env rawToken newPassword) := by
  refine conducts_loaded_orReturn hA fun tok u ht => ?_
  simp only
  split
  · exact conducts_fail _
  refine conducts_orReturn (conducts_local rfl conducts_pure) fun hash => ?_
  refine conducts_orReturn (conducts_mark hM ht) fun _ => ?_
  exact conducts_orReturn (conducts_updateUser hA hU _) fun _ => conducts_store hA trivial

theorem conducts_changePassword (hU : ¬ Special .user) (userID current next : String) :
    Conducts D (changePassword env userID current next) := by
  refine conducts_orFail (conducts_store hA trivial) fun u => ?_
  split
  · exact conducts_fail _
  split
  · exact conducts_fail _
  refine conducts_orReturn (conducts_local rfl conducts_pure) fun hash => ?_
  exact conducts_updateUser hA hU _

theorem conducts_setupMFA (hU : ¬ Special .user) (userID : String) :
    Conducts D (setupMFA userID) := by
  refine conducts_orFail (conducts_store hA trivial) fun u => ?_
  refine conducts_orReturn (conducts_local rfl conducts_pure) fun key => ?_
  exact conducts_orReturn (conducts_updateUser hA hU _) fun _ => conducts_done _

theorem conducts_confirmMFA (hU : ¬ Special .user) (userID code : String) :
    Conducts D (confirmMFA userID code) := by
  refine conducts_orFail (conducts_store hA trivial) fun u => ?_
  apply conducts_totpValid
  intro valid
  split
  · exact conducts_fail _
  · exact conducts_updateUser hA hU _

theorem conducts_disableMFA (hU : ¬ Special .user) (userID password : String) :
    Conducts D (disableMFA env userID password) := by
  refine conducts_orFail (conducts_store hA trivial) fun u => ?_
  split
  · exact conducts_fail _
  · exact conducts_updateUser hA hU _

theorem conducts_lookupByID (id : String) : Conducts D (lookupByID id) :=
  conducts_orReturn (conducts_store hA trivial) fun _ => conducts_done _

theorem conducts_patchMe (hU : ¬ Special .user) (callerID : String) (body : Option String) :
    Conducts D (patchMe callerID body) := by
  unfold patchMe
  split
  · exact conducts_fail _
  split
  · exact conducts_fail _
  refine conducts_orFail (conducts_lookupByID hA _) fun u => ?_
  exact conducts_orFail (conducts_updateUser hA hU _) fun _ => conducts_done _

theorem conducts_patchWorkspaceRole (hU : ¬ Special .user) (callerID callerTenant id : String)
    (body : Option String) :
    Conducts D (patchWorkspaceRole env.cases callerID callerTenant id body) := by
  unfold patchWorkspaceRole
  split
  · exact conducts_fail _
  extract_lets raw
  split
  · exact conducts_fail _
  refine conducts_orFail (conducts_lookupByID hA _) fun target => ?_
  split
  · exact conducts_fail _
  extract_lets role
  split
  · exact conducts_fail _
  · exact conducts_orFail (conducts_updateUser hA hU _) fun _ => conducts_done _

theorem guarded_revoke (hS : ¬ Special .session) {sess : Session} {w : World} (hw : D.Inv w)
    (hs : Held sess w) : Guarded D (fun _ _ => True)
      (now fun t => store (.updateSession { sess with revokedAt := some t })) w := by
  apply guarded_now
  refine (guarded_yield (by rfl)).mpr ⟨?_, fun _ _ _ => guarded_pure.mpr fun _ _ _ => trivial⟩
  refine hA.guard (fun k hk => ?_) (inv_tick hw)
    (allowed_updateSession (show Held sess w.tick from hs) (by simp) rfl)
  cases hk
  exact hS

theorem conducts_logout (hS : ¬ Special .session) (refreshToken : String) :
    Conducts D (logout env refreshToken) := by
  refine ⟨fun w hw => ?_⟩
  apply guarded_store
  · exact guard_plain hA hw trivial
  intro w₁ hr₁ hw₁
  have hget := (handle_store (hA.sound hw) (.getSessionByRefreshHash (hashToken env refreshToken))
    trivial).2
  cases hr : (handle env (.store (.getSessionByRefreshHash (hashToken env refreshToken))) w).1 with
  | error e => exact (conducts_done ()).guarded w₁ hw₁
  | ok sess =>
    have hheld : Held sess w₁ :=
      held_onward ⟨sess, hget.1 ▸ (hget.2.1 sess hr).1, rfl⟩ (hA.onward hr₁)
    exact guarded_revoke hA hS hw₁ hheld

theorem conducts_revokeSession (hS : ¬ Special .session) (userID sessionID : String) :
    Conducts D (revokeSession userID sessionID) := by
  refine ⟨fun w hw => ?_⟩
  apply guarded_store
  · exact guard_plain hA hw trivial
  intro w₁ hr₁ hw₁
  have hget := (handle_store (hA.sound hw) (.getSessionByID sessionID) trivial).2
  cases hr : (handle env (.store (.getSessionByID sessionID)) w).1 with
  | error e => exact (conducts_fail _).guarded w₁ hw₁
  | ok sess =>
    have hs := hget.2 sess hr
    simp only
    split
    · exact (conducts_fail _).guarded w₁ hw₁
    · refine guarded_revoke hA hS hw₁ (held_onward ⟨sess, ?_, rfl⟩ (hA.onward hr₁))
      rw [hget.1, (hA.sound hw).keyed.session hs]
      exact hs

variable (hf : Fresh env) (cfg : Config)
include hf

theorem conducts_createUser {u : String → User} {k : String → Except Err Unit → Prog β}
    (hu : ∀ id, (u id).id = id ∧ (u id).mfaEnabled = false) (hk : ∀ id r, Conducts D (k id r)) :
    Conducts D (newUUID fun id => (store (.createUser (u id))).bind (k id)) := by
  refine ⟨fun w hw => ?_⟩
  apply guarded_newUUID
  apply guarded_store
  · refine hA.guard (fun k hk => by cases hk) (inv_tick hw) ?_
    exact allowed_createUser hf (hA.sound hw) (by rfl) (Nat.le_refl _) (Nat.lt_succ_self _)
      (hu _).1 (hu _).2
  · exact fun w' _ hw' => (hk _ _).guarded w' hw'

theorem conducts_issueToken (userID : String) (purpose : TokenPurpose) (ttl : Duration) :
    Conducts D (issueToken userID purpose ttl) := by
  refine ⟨fun w hw => ?_⟩
  apply guarded_newOpaqueToken
  · exact fun e => (conducts_fail e).guarded _ (inv_tick hw)
  · intro raw hr
    apply guarded_now
    apply guarded_store
    · refine hA.guard (fun k hk => by cases hk) (inv_tick (inv_tick hw)) ?_
      refine allowed_createToken hf (hA.sound hw) (by rfl) (Nat.le_refl _) ?_ hr (by rfl)
      simp only [World.tick]
      omega
    · intro w' _ hw'
      cases (handle env (.store _) _).1 with
      | error e => exact (conducts_fail e).guarded _ hw'
      | ok _ => exact (conducts_done raw).guarded _ hw'

theorem conducts_issueSession (u : User) (edition : Edition) (userAgent ip : String) :
    Conducts D (issueSession env cfg u edition userAgent ip) := by
  refine ⟨fun w hw => ?_⟩
  apply guarded_now
  apply guarded_newOpaqueToken
  · exact fun e => (conducts_fail e).guarded _ (inv_tick (inv_tick hw))
  intro raw hr
  apply guarded_newUUID
  apply guarded_store
  · refine hA.guard (fun k hk => by cases hk) (inv_tick (inv_tick (inv_tick hw))) ?_
    refine allowed_createSession hf (hA.sound hw) (by rfl) ?_ ?_ ?_ ?_ hr (by rfl) (by rfl) (by rfl)
    all_goals try simp only [World.tick]
    all_goals omega
  · intro w' _ hw'
    cases (handle env (.store (.createSession _)) _).1 with
    | error e => exact (conducts_fail e).guarded _ hw'
    | ok _ =>
      exact (conducts_orReturn (conducts_sign cfg u edition _) fun _ => conducts_done _).guarded w' hw'

/-- Refresh writes back only the session it was presented, rotated. -/
theorem conducts_refresh {refreshToken : String}
    (hS : ∀ w s, s.refreshHash = trimSpace (hashToken env refreshToken) → s.rotatedTo ≠ "" →
      D.Inv w → Allowed env w (.store (.updateSession s)) → D.Guard w (.store (.updateSession s)))
    (userAgent ip : String) : Conducts D (refresh env cfg refreshToken userAgent ip) := by
  have hrevoke : ∀ (userID : String) (e : Err), Conducts D
      ((store (.revokeSessionsForUser userID)).bind fun _ => (fail e : Prog TokenPair)) :=
    fun userID e => conducts_plain hA trivial fun _ => conducts_fail e
  refine ⟨fun w hw => ?_⟩
  apply guarded_store
  · exact guard_plain hA hw trivial
  intro w₁ hr₁ hw₁
  have hget := (handle_store (hA.sound hw) (.getSessionByRefreshHash (hashToken env refreshToken))
    trivial).2
  cases hr : (handle env (.store (.getSessionByRefreshHash (hashToken env refreshToken))) w).1 with
  | error e => exact (conducts_fail _).guarded w₁ hw₁
  | ok sess =>
    obtain ⟨hstored, hhash⟩ := hget.2.1 sess hr
    have hheld : Held sess w₁ := held_onward ⟨sess, hget.1 ▸ hstored, rfl⟩ (hA.onward hr₁)
    simp only
    apply guarded_now
    split
    · split
      · exact (hrevoke _ _).guarded _ (inv_tick hw₁)
      · exact (conducts_fail _).guarded _ (inv_tick hw₁)
    split
    · exact (conducts_fail _).guarded _ (inv_tick hw₁)
    apply guarded_store
    · exact guard_plain hA (inv_tick hw₁) trivial
    intro w₂ hr₂ hw₂
    have hlookup : Allowed env w₁.tick (.store (.getUserByID sess.userID)) := ⟨trivial, trivial⟩
    have hon₂ : Onward w₁.tick w₂ := onward_step hA (inv_tick hw₁) hlookup hr₂
    have hheld₂ : Held sess w₂ := held_onward (show Held sess w₁.tick from hheld) hon₂
    cases (handle env (.store (.getUserByID sess.userID)) w₁.tick).1 with
    | error e => exact (hrevoke _ _).guarded _ hw₂
    | ok u =>
      simp only
      split
      · exact (hrevoke _ _).guarded _ hw₂
      apply guarded_newOpaqueToken
      · exact fun e => (conducts_fail e).guarded _ (inv_tick hw₂)
      intro raw hraw
      apply guarded_newUUID
      have hcreate : Allowed env w₂.tick.tick (.store (.createSession {
          id := env.uuid w₂.tick.ticks
          userID := u.id
          refreshHash := hashToken env raw
          userAgent := userAgent
          ip := ip
          createdAt := env.clock w₁.ticks
          expiresAt := env.clock w₁.ticks + cfg.refreshTTL
          rotatedTo := ""
          revokedAt := none })) := by
        refine allowed_createSession hf (hA.sound hw₂) (by rfl) ?_ ?_ ?_ ?_ hraw (by rfl) (by rfl)
          (by rfl)
        all_goals try simp only [World.tick]
        all_goals omega
      apply guarded_store
      · exact hA.guard (fun k hk => by cases hk) (inv_tick (inv_tick hw₂)) hcreate
      intro w₃ hr₃ hw₃
      have hon₃ : Onward w₂.tick.tick w₃ := onward_step hA (inv_tick (inv_tick hw₂)) hcreate hr₃
      have hheld₃ : Held sess w₃ := held_onward (show Held sess w₂.tick.tick from hheld₂) hon₃
      cases (handle env (.store (.createSession _)) w₂.tick.tick).1 with
      | error e => exact (conducts_fail e).guarded _ hw₃
      | ok _ =>
        apply guarded_store
        · exact hS _ _ hhash (hf.uuid_ne _) hw₃ (allowed_updateSession hheld₃ (by simp) rfl)
        intro w₄ _ hw₄
        cases (handle env (.store (.updateSession _)) w₃).1 with
        | error e => exact (conducts_fail e).guarded _ hw₄
        | ok _ =>
          exact (conducts_orReturn (conducts_sign cfg u _ _) fun _ => conducts_done _).guarded _ hw₄

theorem conducts_login (email password edition userAgent ip : String) :
    Conducts D (login env cfg email password edition userAgent ip) := by
  refine conducts_orFail (conducts_store hA trivial) fun u => ?_
  split
  · exact conducts_fail _
  split
  · exact conducts_fail _
  split
  · exact conducts_fail _
  split
  · exact conducts_orReturn (conducts_issueToken hA hf _ _ _) fun _ => conducts_done _
  · exact conducts_orReturn (conducts_issueSession hA hf cfg _ _ _ _) fun _ => conducts_done _

theorem conducts_verifyMFA {mfaSession : String} (hM : MarksOwn D mfaSession)
    (code userAgent ip : String) :
    Conducts D (verifyMFA env cfg mfaSession code userAgent ip) := by
  refine conducts_loaded_orFail hA fun tok u ht => ?_
  apply conducts_totpValid
  intro valid
  split
  · exact conducts_fail _
  · exact conducts_orFail (conducts_mark hM ht) fun _ => conducts_issueSession hA hf cfg _ _ _ _

theorem conducts_forgotPassword (email : String) :
    Conducts D (forgotPassword env cfg email) := by
  refine conducts_bind (conducts_store hA trivial) fun found => ?_
  cases found with
  | error e => exact conducts_done _
  | ok u => exact conducts_orReturn (conducts_issueToken hA hf _ _ _) fun _ => conducts_done _

theorem conducts_register (name email password organisation : String) :
    Conducts D (register env cfg name email password organisation) := by
  unfold register
  extract_lets email'
  split
  · exact conducts_fail _
  split
  · exact conducts_fail _
  split
  · exact conducts_fail _
  split
  · exact conducts_fail _
  refine conducts_orReturn (conducts_plain hA trivial conducts_pure) fun hash => ?_
  refine conducts_createUser hA hf (fun _ => ⟨by rfl, by rfl⟩) fun id r => ?_
  cases r with
  | error e => exact conducts_fail _
  | ok _ =>
    simp only
    split
    · exact conducts_done _
    · exact conducts_orReturn (conducts_issueToken hA hf _ _ _) fun _ => conducts_done _

theorem conducts_seedDemoUsersFrom (specs : List (String × String × Role)) :
    Conducts D (seedDemoUsersFrom cfg specs) := by
  induction specs with
  | nil => exact conducts_done _
  | cons spec specs ih =>
    obtain ⟨name, email, role⟩ := spec
    refine conducts_orReturn (conducts_bind (conducts_store hA trivial) fun found => ?_) fun _ => ih
    cases found with
    | ok u => exact conducts_done _
    | error e =>
      refine conducts_orReturn (conducts_plain hA trivial conducts_pure) fun hash => ?_
      exact conducts_createUser hA hf (k := fun _ r => .pure r) (fun _ => ⟨by rfl, by rfl⟩) fun _ r => conducts_pure r

theorem conducts_seedAdmin : Conducts D (seedAdmin env cfg) := by
  unfold seedAdmin
  split
  · exact conducts_done _
  split
  · exact conducts_fail _
  refine conducts_bind (conducts_store hA trivial) fun found => ?_
  cases found with
  | ok u => exact conducts_done _
  | error e =>
    simp only
    split
    · refine conducts_orReturn (conducts_plain hA trivial conducts_pure) fun hash => ?_
      refine conducts_createUser hA hf (fun _ => ⟨by rfl, by rfl⟩) fun _ created => ?_
      cases created with
      | error e => exact conducts_fail _
      | ok _ => exact conducts_done _
    · exact conducts_done _

theorem conducts_seedBootstrap : Conducts D (seedBootstrap env cfg) := by
  refine conducts_orReturn (conducts_seedAdmin hA hf cfg) fun _ => ?_
  unfold seedDemoUsers
  split
  · split
    · exact conducts_done _
    · exact conducts_seedDemoUsersFrom hA hf cfg _
  · exact conducts_done _

theorem conducts_ensureExternalUser (email name organisation : String) :
    Conducts D (ensureExternalUser env cfg email name organisation) := by
  unfold ensureExternalUser
  extract_lets email'
  split
  · exact conducts_fail _
  split
  · exact conducts_fail _
  refine conducts_bind (conducts_store hA trivial) fun found => ?_
  cases found with
  | ok existing =>
    simp only
    split
    · exact conducts_fail _
    · exact conducts_done _
  | error e =>
    refine conducts_orReturn (conducts_plain hA trivial conducts_pure) fun token => ?_
    refine conducts_orReturn (conducts_plain hA trivial conducts_pure) fun hash => ?_
    refine conducts_createUser hA hf (fun _ => ⟨by rfl, by rfl⟩) fun _ created => ?_
    cases created with
    | ok _ => exact conducts_done _
    | error e =>
      simp only
      split
      · exact conducts_store hA trivial
      · exact conducts_fail _

theorem conducts_demoLogin (userAgent ip : String) :
    Conducts D (demoLogin env cfg userAgent ip) := by
  unfold demoLogin
  split
  · exact conducts_fail _
  · exact conducts_orFail (conducts_store hA trivial) fun _ => conducts_issueSession hA hf cfg _ _ _ _

omit hf in
theorem conducts_loginHandler (p : Provider) (notConfigured edition : String) :
    Conducts D (loginHandler env p notConfigured edition) := by
  unfold loginHandler
  split
  · exact conducts_fail _
  refine conducts_plain hA trivial fun state => ?_
  exact conducts_plain hA trivial fun _ => conducts_done _

theorem conducts_completeGoogleOAuth (code state : String) :
    Conducts D (completeGoogleOAuth env cfg code state) := by
  refine conducts_plain hA trivial fun found => ?_
  cases found with
  | none => exact conducts_fail _
  | some requestedEdition =>
    refine conducts_plain hA trivial fun _ => ?_
    refine conducts_orFail (conducts_plain hA trivial conducts_pure) fun token => ?_
    refine conducts_orFail (conducts_plain hA trivial conducts_pure) fun body => ?_
    split
    · exact conducts_fail _
    split
    · exact conducts_fail _
    split
    · exact conducts_fail _
    refine conducts_orFail (conducts_ensureExternalUser hA hf cfg _ _ _) fun user => ?_
    exact conducts_orFail (conducts_issueSession hA hf cfg _ _ _ _) fun _ => conducts_done _

theorem conducts_googleHandler (missing code state : String) :
    Conducts D (googleHandler env cfg missing code state) := by
  unfold googleHandler
  split
  · exact conducts_fail _
  split
  · exact conducts_fail _
  refine conducts_bind (conducts_completeGoogleOAuth hA hf cfg _ _) fun r => ?_
  cases r with
  | error e => exact conducts_fail _
  | ok a => exact conducts_done _

theorem conducts_googleCallback (oauthErr code state : String) :
    Conducts D (googleCallback env cfg oauthErr code state) := by
  unfold googleCallback
  split
  · exact conducts_fail _
  · exact conducts_googleHandler hA hf cfg _ _ _

omit hf in
theorem conducts_githubEmail (token : String) (ghUser : GitHubUser) {k : String → Prog β}
    (hk : ∀ email, Conducts D (k email)) :
    Conducts D (githubEmail env token ghUser k) := by
  unfold githubEmail
  split
  · exact hk _
  refine conducts_bind (conducts_plain hA trivial conducts_pure) fun answer => ?_
  split
  · exact hk _
  split
  · exact hk _
  · exact hk _

theorem conducts_githubCallback (code state userAgent ip : String) :
    Conducts D (githubCallback env cfg code state userAgent ip) := by
  unfold githubCallback
  split
  · exact conducts_fail _
  split
  · exact conducts_fail _
  refine conducts_plain hA trivial fun found => ?_
  cases found with
  | none => exact conducts_fail _
  | some requestedEdition =>
    refine conducts_plain hA trivial fun _ => ?_
    refine conducts_orFail (conducts_plain hA trivial conducts_pure) fun token => ?_
    refine conducts_orFail (conducts_plain hA trivial conducts_pure) fun body => ?_
    split
    · exact conducts_fail _
    refine conducts_githubEmail hA _ _ fun email => ?_
    split
    · exact conducts_fail _
    split
    · exact conducts_fail _
    refine conducts_orFail (conducts_ensureExternalUser hA hf cfg _ _ _) fun user => ?_
    exact conducts_orFail (conducts_issueSession hA hf cfg _ _ _ _) fun _ => conducts_done _

end Generic

/-- The kinds of records a call overwrites. -/
def overwritten : Call → List Kind
  | .verifyEmail _ | .resetPassword _ _ => [.token, .user]
  | .verifyMFA _ _ _ _ => [.token]
  | .refresh _ _ _ | .logout _ | .revokeSession _ _ => [.session]
  | .changePassword _ _ _ | .setupMFA _ | .confirmMFA _ _ | .disableMFA _ _ | .updateUser _
  | .patchMe _ _ | .patchWorkspaceRole _ _ _ _ => [.user]
  | _ => []

variable (hf : Fresh env) (cfg : Config)
include hf

/-- A call that overwrites no special records makes only the requests that a
discipline admits. -/
theorem conducts_program (hA : Admits D Special) (c : Call)
    (hc : ∀ k ∈ overwritten c, ¬ Special k) : Conducts D (program env cfg c) := by
  cases c with
  | seedBootstrap => exact conducts_answering (conducts_seedBootstrap hA hf cfg)
  | register => exact conducts_answering (conducts_register hA hf cfg _ _ _ _)
  | verifyEmail rawToken =>
    have hM := marksOwn_of_not_special hA (hc .token (by simp [overwritten])) rawToken
    exact conducts_answering (conducts_verifyEmail hA (hc .user (by simp [overwritten])) hM)
  | login => exact conducts_answering (conducts_login hA hf cfg _ _ _ _ _)
  | verifyMFA mfaSession =>
    have hM := marksOwn_of_not_special hA (hc .token (by simp [overwritten])) mfaSession
    exact conducts_answering (conducts_verifyMFA hA hf cfg hM _ _ _)
  | refresh =>
    refine conducts_answering (conducts_refresh hA hf cfg (fun w s _ _ hw ha => ?_) _ _)
    refine hA.guard (fun k hk => ?_) hw ha
    cases hk
    exact hc .session (by simp [overwritten])
  | logout => exact conducts_answering (conducts_logout hA (hc .session (by simp [overwritten])) _)
  | forgotPassword => exact conducts_answering (conducts_forgotPassword hA hf cfg _)
  | resetPassword rawToken =>
    have hM := marksOwn_of_not_special hA (hc .token (by simp [overwritten])) rawToken
    exact conducts_answering (conducts_resetPassword hA (hc .user (by simp [overwritten])) hM _)
  | changePassword =>
    exact conducts_answering (conducts_changePassword hA (hc .user (by simp [overwritten])) _ _ _)
  | setupMFA => exact conducts_answering (conducts_setupMFA hA (hc .user (by simp [overwritten])) _)
  | confirmMFA =>
    exact conducts_answering (conducts_confirmMFA hA (hc .user (by simp [overwritten])) _ _)
  | disableMFA =>
    exact conducts_answering (conducts_disableMFA hA (hc .user (by simp [overwritten])) _ _)
  | demoLogin => exact conducts_answering (conducts_demoLogin hA hf cfg _ _)
  | listSessions => exact conducts_answering (conducts_store hA trivial)
  | revokeSession =>
    exact conducts_answering (conducts_revokeSession hA (hc .session (by simp [overwritten])) _ _)
  | ensureExternalUser => exact conducts_answering (conducts_ensureExternalUser hA hf cfg _ _ _)
  | issueTokens => exact conducts_answering (conducts_issueSession hA hf cfg _ _ _ _)
  | lookupByID => exact conducts_answering (conducts_lookupByID hA _)
  | lookupByEmail =>
    exact conducts_answering (conducts_orReturn (conducts_store hA trivial) fun _ => conducts_done _)
  | updateUser =>
    exact conducts_answering (conducts_updateUser hA (hc .user (by simp [overwritten])) _)
  | listUsersByTenant =>
    exact conducts_answering (conducts_orReturn (conducts_store hA trivial) fun _ => conducts_done _)
  | patchMe => exact conducts_answering (conducts_patchMe hA (hc .user (by simp [overwritten])) _ _)
  | patchWorkspaceRole =>
    exact conducts_answering
      (conducts_patchWorkspaceRole hA (hc .user (by simp [overwritten])) _ _ _ _)
  | googleLogin => exact conducts_answering (conducts_loginHandler hA _ _ _)
  | googleCallback => exact conducts_answering (conducts_googleCallback hA hf cfg _ _ _)
  | googleExchange => exact conducts_answering (conducts_googleHandler hA hf cfg _ _ _)
  | githubLogin => exact conducts_answering (conducts_loginHandler hA _ _ _)
  | githubCallback => exact conducts_answering (conducts_githubCallback hA hf cfg _ _ _ _)

theorem conducts_call (c : Call) : Conducts (conduct env) (program env cfg c) :=
  conducts_program hf cfg conduct_admits c fun _ _ h => h

theorem kept_together {w : World} (hw : Sound env w) (calls : List Call) :
    Kept (conduct env) (fun _ _ _ => True) (together env cfg calls w) := by
  refine kept_of_conducts hw fun p hp => ?_
  obtain ⟨c, _, rfl⟩ := List.mem_map.mp hp
  exact conducts_call hf cfg c

/-- Every reachable state is sound. -/
theorem reachable_sound {w : World} (hw : Reachable env cfg w) : Sound env w := by
  obtain ⟨st, hst, calls, sched, rfl⟩ := hw
  exact (kept_run (fun h => h) (kept_together hf cfg (sound_start hst) calls) sched).1.inv

end RivicQ.Runs.Conduct
