import RivicQ.Runs.Outcomes

namespace RivicQ.Properties.Enrolment

open RivicQ.Lib.GoStrings RivicQ.Lib.Programs RivicQ.Lib.Disciplines
open RivicQ.Authn.Types RivicQ.Authn.Records RivicQ.Authn.Stores RivicQ.Authn.Environment
open RivicQ.Authn.Operations RivicQ.Authn.Handlers RivicQ.Authn.Worlds RivicQ.Authn.Rules
open RivicQ.Runs.Calls RivicQ.Runs.Conduct RivicQ.Runs.Alone RivicQ.Runs.Outcomes

/-- The account has its second factor enabled with this secret. -/
def Enrolled (v : Ledger) (id secret : String) : Prop :=
  ∃ u, v.user id = some u ∧ u.mfaEnabled = true ∧ u.mfaSecret = secret

/-- What is stored as enrolled was so before, or is one of the new enrolments. -/
def KeepsFactor (new : String → String → Prop) (v : Ledger) (o : StoreOp) : Prop :=
  ∀ u, o = .updateUser u → u.mfaEnabled = true →
    Enrolled v u.id u.mfaSecret ∨ new u.id u.mfaSecret ∧ trimSpace u.mfaSecret ≠ ""

def NoBlankSecret (v : Ledger) : Prop :=
  ∀ id secret, Enrolled v id secret → trimSpace secret ≠ ""

theorem enrolled_putUser {v : Ledger} {u : User} {id secret : String}
    (h : Enrolled (putUser v u) id secret) :
    (id ≠ u.id ∧ Enrolled v id secret) ∨
      id = u.id ∧ u.mfaEnabled = true ∧ u.mfaSecret = secret := by
  obtain ⟨u', hu', hm, hs⟩ := h
  simp only [putUser] at hu'
  split at hu'
  · rename_i hid
    cases hu'
    exact Or.inr ⟨hid, hm, hs⟩
  · rename_i hid
    exact Or.inl ⟨hid, u', hu', hm, hs⟩

theorem step_enrolled {cm : CaseMap} {new : String → String → Prop} {total : Prop}
    {v v' : Ledger} {o : StoreOp} {r : o.Reply} (hv : NoBlankSecret v) (hG : Guard v o)
    (hK : KeepsFactor new v o) (hs : Step cm total v v' o r) {id secret : String}
    (h : Enrolled v' id secret) :
    Enrolled v id secret ∨ new id secret ∧ trimSpace secret ≠ "" := by
  obtain he | ⟨u, u', rfl, hk, he⟩ | ⟨u, old, u', rfl, _, hk, he⟩ := step_user hs
  · exact Or.inl (by unfold Enrolled at h ⊢; rw [← he]; exact h)
  all_goals
    have h' : Enrolled (putUser v u') id secret := by
      unfold Enrolled at h ⊢
      rw [← he]
      exact h
    obtain ⟨_, h⟩ | ⟨hid, hm, hsecret⟩ := enrolled_putUser h'
    · exact Or.inl h
  · rw [hk.mfaEnabled, hG.2] at hm
    cases hm
  · rw [hk.id] at hid
    subst hid
    have hor := hK u rfl (hk.mfaEnabled ▸ hm)
    have hne : trimSpace u.mfaSecret ≠ "" := hor.elim (hv _ _) And.right
    have hsame : u.mfaSecret = secret := by
      obtain hsame | ⟨hblank, _⟩ := hk.mfaSecret
      · rw [← hsame, hsecret]
      · exact absurd hblank hne
    rw [← hsame]
    exact hor

/-- Accounts are enrolled only by the new enrolments. -/
def enrolment (cm : CaseMap) (new : String → String → Prop) : Concern cm where
  Inv := NoBlankSecret
  Rel := fun v w => ∀ id secret, Enrolled w id secret → Enrolled v id secret ∨ new id secret
  Guard := KeepsFactor new
  refl := fun _ _ _ h => Or.inl h
  trans := fun huv hvw id secret h => (hvw id secret h).elim (huv id secret) Or.inr
  step := fun hv hG hK hs =>
    ⟨fun id secret h => (step_enrolled hv hG hK hs h).elim (hv id secret) And.right,
      fun _ _ h => (step_enrolled hv hG hK hs h).imp_right And.left⟩

variable {env : Env} {cfg : Config} {w : World} {new : String → String → Prop}

/-- The discipline of a call under which only new accounts are enrolled. -/
abbrev enrolling (env : Env) (new : String → String → Prop) : Discipline (handle env) :=
  minding (enrolment env.cases new)

theorem enrolling_admits : Admits (enrolling env new) (fun k => k = .user) := by
  refine admits_minding fun {v o} ho _ _ u hu => ?_
  subst hu
  exact absurd rfl (ho .user rfl)

/-- A write that leaves the second factor of the stored record alone. -/
theorem keeps_of_same {v : Ledger} {u u' : User} (hu : v.user u'.id = some u)
    (hm : u'.mfaEnabled = true → u.mfaEnabled = true) (hs : u'.mfaSecret = u.mfaSecret) :
    KeepsFactor new v (.updateUser u') := by
  intro u'' he hm'
  cases he
  exact Or.inl ⟨u, hu, hm hm', hs.symm⟩

/-- A write that leaves the second factor off. -/
theorem keeps_of_off {v : Ledger} {u' : User} (hm : u'.mfaEnabled = false) :
    KeepsFactor new v (.updateUser u') := by
  intro u'' he hm'
  cases he
  rw [hm] at hm'
  cases hm'

theorem guarded_update (hw : (enrolling env new).Inv w) {u : User}
    (hK : KeepsFactor new w.ledger (.updateUser u)) :
    Guarded (enrolling env new).alone (fun _ _ => True) (store (.updateUser u)) w :=
  guarded_serve_last (o := .updateUser u) enrolling_admits hw ⟨⟨trivial, trivial⟩, hK⟩
    fun _ _ _ _ _ => trivial

theorem guarded_reading {β : Type} {id : String} {e : Err} {k : User → Prog β}
    (hw : (enrolling env new).Inv w)
    (hk : ∀ u w', (enrolling env new).Inv w' → w'.ledger = w.ledger →
      w'.ledger.user u.id = some u → w.ledger.user id = some u →
      Guarded (enrolling env new).alone (fun _ _ => True) (k u) w') :
    Guarded (enrolling env new).alone (fun _ _ => True) (orFail (store (.getUserByID id)) e k) w := by
  refine guarded_serve enrolling_admits hw (guard_plain enrolling_admits hw trivial)
    fun r w' hw' _ _ hs => ?_
  cases r with
  | error e => exact guarded_alone_pure trivial
  | ok u =>
    have hu := hs.2.1 u rfl
    refine hk u w' hw' hs.1 ?_ hu
    rw [hs.1, hw.1.keyed.user hu]
    exact hu

theorem guarded_verifyEmail (hw : (enrolling env new).Inv w) (rawToken : String) :
    Guarded (enrolling env new).alone (fun _ _ => True) (verifyEmail env rawToken) w := by
  refine guarded_delivered hw
    (delivers_consumeToken enrolling_admits (by simp) hw rawToken _) fun u w' hw' hu => ?_
  obtain ⟨husers, tok, hload⟩ := hu
  refine guarded_update hw' (keeps_of_same (u := u) ?_ id rfl)
  rw [husers]
  exact hload.stored enrolling_admits hw

theorem guarded_resetPassword (hw : (enrolling env new).Inv w) (rawToken newPassword : String) :
    Guarded (enrolling env new).alone (fun _ _ => True) (resetPassword env rawToken newPassword) w := by
  refine guarded_delivered hw
    (delivers_loadToken enrolling_admits hw rawToken _) fun t w₁ hw₁ hload => ?_
  obtain ⟨tok, u⟩ := t
  obtain ⟨hl₁, _, hload⟩ := hload
  simp only
  split
  · exact guarded_alone_pure trivial
  apply guarded_hashPassword
  · exact fun e => guarded_alone_pure trivial
  intro hash _
  have hw₁' : (enrolling env new).Inv w₁.tick := inv_tick hw₁
  have hG := marksOwn_of_not_special enrolling_admits (by simp) rawToken w₁.tick tok.hash
    (hw.1.keyed.token hload.token) hw₁'
  refine guarded_delivered hw₁'
    (delivers_markTokenUsed enrolling_admits hw₁' tok.hash hG) fun _ w₂ hw₂ hmark => ?_
  have hu : w₂.ledger.user u.id = some u := by
    rw [hmark.1]
    change w₁.ledger.user u.id = some u
    rw [hl₁]
    exact hload.stored enrolling_admits hw
  refine guarded_serve enrolling_admits hw₂ ⟨⟨trivial, trivial⟩, keeps_of_same (u := u) hu id rfl⟩
    fun r w₃ hw₃ _ _ _ => ?_
  cases r with
  | error e => exact guarded_alone_pure trivial
  | ok _ =>
    exact (conducts_store (o := .revokeSessionsForUser u.id) (admits_alone enrolling_admits)
      trivial).guarded w₃ hw₃

theorem guarded_changePassword (hw : (enrolling env new).Inv w) (userID current next : String) :
    Guarded (enrolling env new).alone (fun _ _ => True)
      (changePassword env userID current next) w := by
  refine guarded_reading hw fun u w' hw' _ hu _ => ?_
  split
  · exact guarded_alone_pure trivial
  split
  · exact guarded_alone_pure trivial
  apply guarded_hashPassword
  · exact fun e => guarded_alone_pure trivial
  intro hash _
  exact guarded_update (inv_tick hw') (keeps_of_same (u := u) hu id rfl)

theorem guarded_disableMFA (hw : (enrolling env new).Inv w) (userID password : String) :
    Guarded (enrolling env new).alone (fun _ _ => True) (disableMFA env userID password) w := by
  refine guarded_reading hw fun u w' hw' _ _ _ => ?_
  split
  · exact guarded_alone_pure trivial
  · exact guarded_update hw' (keeps_of_off rfl)

/-- No account of this id has its second factor enabled. -/
def Unenrolled (v : Ledger) (id : String) : Prop :=
  ∀ u, v.user id = some u → u.mfaEnabled = false

theorem guarded_setupMFA (hw : (enrolling env new).Inv w) {userID : String}
    (hoff : Unenrolled w.ledger userID) :
    Guarded (enrolling env new).alone (fun _ _ => True) (setupMFA userID) w := by
  refine guarded_reading hw fun u w' hw' _ _ hu => ?_
  apply guarded_generateTOTP
  · exact fun e => guarded_alone_pure trivial
  intro key _
  have hstored : Delivers (enrolling env new).alone (fun _ _ => True)
      (store (.updateUser { u with mfaSecret := key.1 })) w'.tick :=
    guarded_mono (fun _ _ _ _ _ _ => trivial)
      (guarded_update (inv_tick hw') (keeps_of_off (hoff u hu)))
  exact guarded_delivered (inv_tick hw') hstored fun _ _ _ _ => guarded_alone_pure trivial

theorem guarded_confirmMFA (hw : (enrolling env new).Inv w) {userID code : String}
    (hnew : ∀ u, w.ledger.user userID = some u → new userID u.mfaSecret) :
    Guarded (enrolling env new).alone (fun _ _ => True) (confirmMFA userID code) w := by
  refine guarded_reading hw fun u w' hw' _ _ hu => ?_
  refine guarded_totpValid (D := (enrolling env new).alone) (fun _ _ _ => guarded_alone_pure trivial)
    (fun hne _ => ?_) hw'
  refine guarded_update (inv_tick hw') fun u' he _ => Or.inr ?_
  cases he
  refine ⟨?_, hne⟩
  rw [show u.id = userID from hw.1.keyed.user hu]
  exact hnew u hu

/-- A public view is written back only where no second factor could be lost. -/
theorem guarded_writeBack {β : Type} {k : Unit → Prog β} {e : Err}
    (hk : ∀ w', (enrolling env new).Inv w' → Guarded (enrolling env new).alone (fun _ _ => True)
      (k ()) w') (hw : (enrolling env new).Inv w) {u : User} (hoff : u.mfaEnabled = false) :
    Guarded (enrolling env new).alone (fun _ _ => True) (orFail (updateUser u) e k) w := by
  refine guarded_serve enrolling_admits hw ⟨⟨trivial, trivial⟩, keeps_of_off hoff⟩
    fun r w' hw' _ _ _ => ?_
  cases r with
  | error e => exact guarded_alone_pure trivial
  | ok _ => exact hk w' hw'

theorem guarded_lookup {β : Type} {id : String} {e : Err} {k : User → Prog β}
    (hw : (enrolling env new).Inv w)
    (hk : ∀ u w', (enrolling env new).Inv w' → w.ledger.user id = some u →
      Guarded (enrolling env new).alone (fun _ _ => True) (k (publicUser u)) w') :
    Guarded (enrolling env new).alone (fun _ _ => True) (orFail (lookupByID id) e k) w := by
  refine guarded_serve enrolling_admits hw (guard_plain enrolling_admits hw trivial)
    fun r w' hw' _ _ hs => ?_
  cases r with
  | error e => exact guarded_alone_pure trivial
  | ok u => exact hk u w' hw' (hs.2.1 u rfl)

theorem guarded_patchMe (hw : (enrolling env new).Inv w) {callerID : String} {body : Option String}
    (hoff : ∀ name, body = some name → trimSpace name ≠ "" → Unenrolled w.ledger callerID) :
    Guarded (enrolling env new).alone (fun _ _ => True) (patchMe callerID body) w := by
  unfold patchMe
  split
  · exact guarded_alone_pure trivial
  split
  · exact guarded_alone_pure trivial
  rename_i name hname
  refine guarded_lookup hw fun u w' hw' hu => ?_
  exact guarded_writeBack (fun _ _ => guarded_alone_pure trivial) hw' (hoff name rfl hname u hu)

/-- The role may be given to this account by this caller. -/
def Assigns (cm : CaseMap) (callerID callerTenant role : String) (u : User) : Prop :=
  toLower cm (trimSpace role) ∈ ["viewer", "analyst", "operator", "admin"] ∧
    u.tenantID = callerTenant ∧
    (u.id = callerID → normalizeRole cm (toLower cm (trimSpace role)) = .admin)

theorem guarded_patchWorkspaceRole (hw : (enrolling env new).Inv w)
    {callerID callerTenant id : String} {body : Option String}
    (hoff : ∀ role u, body = some role → w.ledger.user id = some u →
      Assigns env.cases callerID callerTenant role u → u.mfaEnabled = false) :
    Guarded (enrolling env new).alone (fun _ _ => True)
      (patchWorkspaceRole env.cases callerID callerTenant id body) w := by
  unfold patchWorkspaceRole
  split
  · exact guarded_alone_pure trivial
  rename_i role
  extract_lets raw
  split
  · exact guarded_alone_pure trivial
  rename_i hraw
  refine guarded_lookup hw fun u w' hw' hu => ?_
  split
  · exact guarded_alone_pure trivial
  rename_i htenant
  extract_lets target
  split
  · exact guarded_alone_pure trivial
  rename_i hself
  refine guarded_writeBack (fun _ _ => guarded_alone_pure trivial) hw' ?_
  refine hoff role u rfl hu ⟨not_not.mp hraw, not_not.mp htenant, fun hid => ?_⟩
  by_contra hrole
  exact hself ⟨hid, hrole⟩

/-- The call writes no record whose second factor is enabled, other than to keep
it as it is or to turn it off. -/
def Spares (env : Env) (w : World) : Call → Prop
  | .setupMFA userID => Unenrolled w.ledger userID
  | .updateUser u => u.mfaEnabled = true → Enrolled w.ledger u.id u.mfaSecret
  | .patchMe callerID body =>
    ∀ name, body = some name → trimSpace name ≠ "" → Unenrolled w.ledger callerID
  | .patchWorkspaceRole callerID callerTenant id body =>
    ∀ role u, body = some role → w.ledger.user id = some u →
      Assigns env.cases callerID callerTenant role u → u.mfaEnabled = false
  | _ => True

/-- The only new enrolment a call can make. -/
def Enrols (w : World) : Call → String → String → Prop
  | .confirmMFA userID _ => fun id secret =>
    id = userID ∧ ∃ u, w.ledger.user userID = some u ∧ u.mfaSecret = secret
  | _ => fun _ _ => False

theorem guarded_program (hf : Fresh env) (cfg : Config) (c : Call) (hw : (enrolling env (Enrols w c)).Inv w)
    (hs : Spares env w c) : Guarded (enrolling env (Enrols w c)).alone (fun _ _ => True)
      (program env cfg c) w := by
  have hans : ∀ {α : Type} {f : α → Answer} {p : Prog α},
      Guarded (enrolling env (Enrols w c)).alone (fun _ _ => True) p w →
      Guarded (enrolling env (Enrols w c)).alone (fun _ _ => True) (answering f p) w :=
    fun hp => guarded_mono (fun _ _ _ _ => trivial) (guarded_answering hw hp)
  cases c with
  | verifyEmail rawToken => exact hans (guarded_verifyEmail hw rawToken)
  | resetPassword rawToken newPassword => exact hans (guarded_resetPassword hw rawToken newPassword)
  | changePassword userID current next =>
    exact hans (guarded_changePassword hw userID current next)
  | setupMFA userID => exact hans (guarded_setupMFA hw hs)
  | confirmMFA userID code => exact hans (guarded_confirmMFA hw fun u hu => ⟨rfl, u, hu, rfl⟩)
  | disableMFA userID password => exact hans (guarded_disableMFA hw userID password)
  | updateUser u =>
    refine hans (guarded_update hw fun u' he hm => Or.inl ?_)
    cases he
    exact hs hm
  | patchMe callerID body => exact hans (guarded_patchMe hw hs)
  | patchWorkspaceRole callerID callerTenant id body =>
    exact hans (guarded_patchWorkspaceRole hw hs)
  | _ =>
    refine (conducts_program hf cfg (admits_alone enrolling_admits) _ ?_).guarded w hw
    simp [overwritten]

/-- The call confirms this secret of the account, with a code that is valid for it. -/
def Accepts (env : Env) (cfg : Config) (w : World) (id secret : String) (c : Call) : Prop :=
  ∃ code, c = .confirmMFA id code ∧ outcome env cfg c w = .ok .unit ∧
    (∃ u, w.ledger.user id = some u ∧ u.mfaSecret = secret) ∧
    ∃ n, w.ticks ≤ n ∧ env.totpValidate (env.clock n) (trimSpace code) secret = true

/-- The call turns the second factor of the account off. -/
def Disables (env : Env) (cfg : Config) (w : World) (id : String) (c : Call) : Prop :=
  ∃ password, c = .disableMFA id password ∧ outcome env cfg c w = .ok .unit

/-- A confirmation succeeds only with a valid code, and changes nothing otherwise. -/
theorem confirmMFA_spec (hw : Sound env w) (userID code : String) :
    Guarded (alone env) (fun r w' => (∀ e, r = .error e → w'.ledger = w.ledger) ∧
      ∀ a, r = .ok a → ∃ u n, w.ledger.user userID = some u ∧ w.ticks ≤ n ∧
        env.totpValidate (env.clock n) (trimSpace code) u.mfaSecret = true)
      (confirmMFA userID code) w := by
  refine guarded_serve conduct_admits hw ⟨trivial, trivial⟩ fun r w₁ hw₁ ho₁ _ hs => ?_
  have hl : w₁.ledger = w.ledger := hs.1
  have hfail : ∀ {e : Err} {w' : World}, w'.ledger = w₁.ledger → Guarded (alone env)
      (fun (r : Except Err Unit) w' => (∀ e, r = .error e → w'.ledger = w.ledger) ∧
        ∀ a, r = .ok a → ∃ u n, w.ledger.user userID = some u ∧ w.ticks ≤ n ∧
          env.totpValidate (env.clock n) (trimSpace code) u.mfaSecret = true) (fail e) w' :=
    fun h => guarded_alone_pure ⟨fun _ _ => h.trans hl, fun a ha => by cases ha⟩
  cases r with
  | error e => exact hfail rfl
  | ok u =>
    refine guarded_totpValid (D := alone env)
      (fun w' hstore _ => hfail (congrArg Store.ledger hstore)) (fun _ hvalid => ?_) hw₁
    refine guarded_serve_last (o := .updateUser { u with mfaEnabled := true }) conduct_admits
      (inv_tick hw₁) ⟨trivial, trivial⟩ fun r w₂ _ _ hs₂ => ⟨fun e he => ?_, fun a _ => ?_⟩
    · obtain ⟨_, hkept, _⟩ | ⟨hok, _⟩ := hs₂
      · exact hkept.trans hl
      · rw [hok] at he
        cases he
    · exact ⟨u, w₁.ticks, hs.2.1 u rfl, ho₁.ticks, hvalid⟩

theorem disableMFA_spec (hw : Sound env w) (userID password : String) :
    Delivers (alone env) (fun _ w' => Unenrolled w'.ledger userID)
      (disableMFA env userID password) w := by
  refine guarded_serve conduct_admits hw ⟨trivial, trivial⟩ fun r w₁ hw₁ _ _ hs => ?_
  cases r with
  | error e => exact delivers_fail _
  | ok u =>
    simp only
    split
    · exact delivers_fail _
    refine guarded_serve_last (o := .updateUser { u with mfaEnabled := false, mfaSecret := "" })
      conduct_admits hw₁ ⟨trivial, trivial⟩ fun r w₂ _ _ hs₂ a ha => ?_
    obtain ⟨herr, _⟩ | ⟨_, old, u', _, hupd, he⟩ := hs₂
    · rw [ha] at herr
      cases herr
    intro v hv
    have hid : userID = u'.id := (hw.keyed.user (hs.2.1 u rfl)).symm.trans hupd.id.symm
    rw [he] at hv
    cases (if_pos hid).symm.trans hv
    exact hupd.mfaEnabled

/-- Who is enrolled after a call was so before, and not disabled by it, or is
enrolled by it. -/
theorem enrolled_after (hf : Fresh env) (cfg : Config) (hw : Sound env w) (hb : NoBlankSecret w.ledger) {c : Call}
    (hs : Spares env w c) :
    NoBlankSecret (after env cfg c w).ledger ∧
    ∀ id secret, Enrolled (after env cfg c w).ledger id secret →
      (Enrolled w.ledger id secret ∧ ¬ Disables env cfg w id c) ∨
        Accepts env cfg w id secret c := by
  have hw' : (enrolling env (Enrols w c)).Inv w := ⟨hw, hb⟩
  obtain ⟨hinv, hmove, _⟩ := run_guarded (D := (enrolling env (Enrols w c)).alone) hw'
    (guarded_program hf cfg c hw' hs)
  refine ⟨hinv.2, fun id secret h => ?_⟩
  by_cases hdis : Disables env cfg w id c
  · obtain ⟨password, rfl, hok⟩ := hdis
    obtain ⟨_, _, hoff⟩ := after_delivers (c := .disableMFA id password) (by rfl) hw
      (disableMFA_spec hw id password) hok
    obtain ⟨u, hu, hm, _⟩ := h
    rw [hoff u hu] at hm
    cases hm
  cases c with
  | confirmMFA userID code =>
    have hc : program env cfg (.confirmMFA userID code) =
        answering (fun _ => .unit) (confirmMFA userID code) := rfl
    obtain ⟨r, hr, hpost⟩ := after_guarded (D := conduct env) hc hw (confirmMFA_spec hw userID code)
    cases r with
    | error e =>
      rw [hpost.1 e rfl] at h
      exact Or.inl ⟨h, hdis⟩
    | ok a =>
      obtain hold | ⟨rfl, u, hu, rfl⟩ := hmove.2 id secret h
      · exact Or.inl ⟨hold, hdis⟩
      · obtain ⟨u', n, hu', hn, hvalid⟩ := hpost.2 a rfl
        rw [hu] at hu'
        cases hu'
        exact Or.inr ⟨code, rfl, hr, ⟨u, hu, rfl⟩, n, hn, hvalid⟩
  | _ => exact Or.inl ⟨(hmove.2 id secret h).resolve_right fun hnew => hnew, hdis⟩

variable (env cfg)

/-- The calls of a serial run each spare the accounts that are enrolled. -/
def Sparing : List Call → World → Prop
  | [], _ => True
  | c :: calls, w => Spares env w c ∧ Sparing calls (after env cfg c w)

/-- No call of a serial run disables the second factor of the account. -/
def Undisabled (id : String) : List Call → World → Prop
  | [], _ => True
  | c :: calls, w => ¬ Disables env cfg w id c ∧ Undisabled id calls (after env cfg c w)

/-- Some call of a serial run accepted a valid code for this secret of the
account, and no later one disabled it. -/
def Confirmed (id secret : String) : List Call → World → Prop
  | [], _ => False
  | c :: calls, w =>
    (Accepts env cfg w id secret c ∧ Undisabled env cfg id calls (after env cfg c w)) ∨
      Confirmed id secret calls (after env cfg c w)

variable {env cfg}

theorem enrolled_serially (hf : Fresh env) {calls : List Call} (hw : Sound env w)
    (hb : NoBlankSecret w.ledger) (hs : Sparing env cfg calls w) {id secret : String}
    (h : Enrolled (serially env cfg calls w).ledger id secret) :
    trimSpace secret ≠ "" ∧ ((Enrolled w.ledger id secret ∧ Undisabled env cfg id calls w) ∨
      Confirmed env cfg id secret calls w) := by
  induction calls generalizing w with
  | nil => exact ⟨hb id secret h, Or.inl ⟨h, trivial⟩⟩
  | cons c calls ih =>
    obtain ⟨hb', hstep⟩ := enrolled_after hf cfg hw hb hs.1
    obtain ⟨hne, ⟨henrolled, hkept⟩ | hconfirmed⟩ :=
      ih (sound_after hf cfg hw c).1 hb' hs.2 h
    · refine ⟨hne, ?_⟩
      obtain ⟨hold, hdis⟩ | hacc := hstep id secret henrolled
      · exact Or.inl ⟨hold, hdis, hkept⟩
      · exact Or.inr (Or.inl ⟨hacc, hkept⟩)
    · exact ⟨hne, Or.inr (Or.inr hconfirmed)⟩

/-- While no call writes over an enrolled account, an enabled second factor has
the secret that the account last confirmed. -/
theorem enabled_confirmed (hf : Fresh env) {st : Store} (hst : Store.Empty st) {calls : List Call}
    (hs : Sparing env cfg calls (start st)) (id : String) (u : User)
    (hu : (serially env cfg calls (start st)).ledger.user id = some u) (hm : u.mfaEnabled = true) :
    u.mfaSecret ≠ "" ∧ Confirmed env cfg id u.mfaSecret calls (start st) := by
  have hnone : ∀ id secret, ¬ Enrolled (start st).ledger id secret := by
    rintro id secret ⟨u, hu, _⟩
    rw [show (start st).ledger = _ from Store.ledger_empty hst] at hu
    cases hu
  have hb : NoBlankSecret (start st).ledger := fun id secret h => absurd h (hnone id secret)
  obtain ⟨hne, h⟩ := enrolled_serially hf (sound_start hst) hb hs ⟨u, hu, hm, rfl⟩
  refine ⟨fun he => hne (by rw [he]; rfl), ?_⟩
  exact h.resolve_left fun h => hnone _ _ h.1

theorem sparing_enrolled : Sparing plain demoConfig enrolled (start (.memory Authn.Memory.empty)) := by
  refine ⟨trivial, fun u hu => ?_, trivial, trivial⟩
  exact (by decide +kernel : ∀ u ∈ (demo (enrolled.take 1)).ledger.user "00", u.mfaEnabled = false)
    u hu

/-- Ada's secret is the one she confirmed. -/
theorem enrolled_confirmed : ∃ u, (demo enrolled).ledger.user "00" = some u ∧
    Confirmed plain demoConfig "00" u.mfaSecret enrolled (start (.memory Authn.Memory.empty)) := by
  obtain ⟨u, hu, hm⟩ := (by decide +kernel :
    ∃ u ∈ (demo enrolled).ledger.user "00", u.mfaEnabled = true)
  exact ⟨u, hu, (enabled_confirmed fresh_plain (Or.inl rfl) sparing_enrolled "00" u hu hm).2⟩

/-- A second set-up leaves the factor enabled with a secret nobody confirmed. -/
theorem setupMFA_replaces_secret : ¬ ∀ (calls : List Call) (id : String) (u : User),
    (demo calls).ledger.user id = some u → u.mfaEnabled = true →
    u.mfaSecret ≠ "" ∧
      Confirmed plain demoConfig id u.mfaSecret calls (start (.memory Authn.Memory.empty)) := by
  intro h
  obtain ⟨u, hu, hm, hsecret⟩ := (by decide +kernel :
    ∃ u ∈ (demo (enrolled ++ [.setupMFA "00"])).ledger.user "00", u.mfaEnabled = true ∧
      u.mfaSecret = "SSSSSSSSSSSSSSSSS")
  have hconfirmed := (h (enrolled ++ [.setupMFA "00"]) "00" u hu hm).2
  rw [hsecret] at hconfirmed
  obtain ⟨⟨_, hc, _⟩, _⟩ | ⟨⟨_, hc, _⟩, _⟩ | hconfirming | ⟨⟨_, hc, _⟩, _⟩ | hc := hconfirmed
  · cases hc
  · cases hc
  · obtain ⟨⟨_, _, _, ⟨v, hv, hsecret⟩, _⟩, _⟩ := hconfirming
    exact (by decide +kernel : ∀ v ∈ (demo (enrolled.take 2)).ledger.user "00",
      v.mfaSecret ≠ "SSSSSSSSSSSSSSSSS") v hv hsecret
  · cases hc
  · exact hc

end RivicQ.Properties.Enrolment
