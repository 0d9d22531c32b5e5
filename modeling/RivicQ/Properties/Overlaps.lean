import RivicQ.Lib.Cells
import RivicQ.Runs.Alone

namespace RivicQ.Properties.Overlaps

open RivicQ.Lib.GoStrings RivicQ.Lib.Programs RivicQ.Lib.Pools RivicQ.Lib.Disciplines
open RivicQ.Lib.Cells RivicQ.Authn.Types RivicQ.Authn.Records RivicQ.Authn.Stores
open RivicQ.Authn.Environment RivicQ.Authn.Password RivicQ.Authn.Operations RivicQ.Authn.Handlers
open RivicQ.Authn.Worlds RivicQ.Authn.Rules RivicQ.Runs.Calls RivicQ.Runs.Conduct
open RivicQ.Authn

/-- What the surroundings contribute to an edit: a digest of the new password, and the time a
code is checked at. -/
structure Draw where
  hash : String
  time : Time

section Edits

variable (env : Env) (d : Draw)

/-- What a call makes of the record of its user; one that it does not accept stays. -/
def edit : Call → User → User
  | .changePassword _ current next, u =>
    if checkPassword env current u.passwordHash &&
        (validatePasswordFor env.cases next u.email u.organisation).isOk then
      { u with passwordHash := d.hash }
    else u
  | .resetPassword _ newPassword, u =>
    if (validatePasswordFor env.cases newPassword u.email u.organisation).isOk then
      { u with passwordHash := d.hash }
    else u
  | .confirmMFA _ code, u =>
    if trimSpace u.mfaSecret ≠ "" ∧ env.totpValidate d.time (trimSpace code) u.mfaSecret = true then
      { u with mfaEnabled := true }
    else u
  | .disableMFA _ password, u =>
    if checkPassword env password u.passwordHash then
      { u with mfaEnabled := false, mfaSecret := "" }
    else u
  | .verifyEmail _, u => { u with emailVerified := true }
  | .patchMe _ (some name), u => { publicUser u with name := trimSpace name }
  | .patchWorkspaceRole callerID callerTenant _ (some role), u =>
    let role := normalizeRole env.cases (toLower env.cases (trimSpace role))
    if u.tenantID ≠ callerTenant ∨ u.id = callerID ∧ role ≠ .admin then u
    else { publicUser u with role := role }
  | _, u => u

def Drawn : Call → Prop
  | .changePassword _ _ password | .resetPassword _ password =>
    ∃ n, env.bcryptGenerate n password = .ok d.hash
  | .confirmMFA _ _ => ∃ n, d.time = env.clock n
  | _ => True

/-- The edit that a call with this reply has made: its own, or none if it has failed. -/
def Makes (c : Call) (r : Except Err Answer) (f : User → User) : Prop :=
  (∃ d, Drawn env d c ∧ f = edit env d c) ∨ r.isOk = false ∧ f = id

/-- Two records agree in what a call is meant to set. A blank secret is none. -/
def Same : Call → User → User → Prop
  | .changePassword _ _ _, u, v | .resetPassword _ _, u, v => u.passwordHash = v.passwordHash
  | .confirmMFA _ _, u, v => u.mfaEnabled = v.mfaEnabled
  | .disableMFA _ _, u, v =>
    u.mfaEnabled = v.mfaEnabled ∧ trimSpace u.mfaSecret = trimSpace v.mfaSecret
  | .verifyEmail _, u, v => u.emailVerified = v.emailVerified
  | .patchMe _ _, u, v => u.name = v.name
  | .patchWorkspaceRole _ _ _ _, u, v => u.role = v.role
  | _, _, _ => True

/-- What two calls are meant to set is as one of their two serial orders leaves it. -/
def Serial (c₀ c₁ : Call) (r₀ r₁ : Except Err Answer) (u v : User) : Prop :=
  ∃ f₀ f₁, Makes env c₀ r₀ f₀ ∧ Makes env c₁ r₁ f₁ ∧
    (Same c₀ (f₁ (f₀ u)) v ∧ Same c₁ (f₁ (f₀ u)) v ∨
      Same c₀ (f₀ (f₁ u)) v ∧ Same c₁ (f₀ (f₁ u)) v)

/-- The call is one of the operations on the record of a user. -/
def Acts (w : World) (id : String) : Call → Prop
  | .changePassword userID _ _ | .confirmMFA userID _ | .disableMFA userID _ => userID = id
  | .resetPassword rawToken _ | .verifyEmail rawToken => Owned env rawToken id w
  | .patchMe callerID _ => callerID = id
  | .patchWorkspaceRole _ _ id' _ => id' = id
  | _ => False

end Edits

section Cell

variable (env : Env)

/-- The record of a user, as a cell of the world. -/
def record (id : String) : Cell Calls World User where
  value := fun w => w.ledger.user id
  read
    | .store (.getUserByID id'), r => if id' = id then r.toOption else none
    | _, _ => none
  write
    | .store (.updateUser u) => if u.id = id then some u else none
    | _ => none
  accepted
    | .store (.updateUser _), r => r.isOk
    | _, _ => false
  Stores := Updates env.cases

/-- What the service can be told, where `w₀` is the state it started in. -/
def Fits (w₀ : World) : (o : Op) → o.Reply → Prop
  | .store (.getUserByID id), r => ∀ u, r = .ok u → u.id = id
  | .store (.getToken hash), r => ∀ tok t, r = .ok tok →
      w₀.ledger.token (trimSpace hash) = some t → tok.userID = t.userID
  | .hashPassword password, r => ∀ hash, r = .ok hash → ∃ n, env.bcryptGenerate n password = .ok hash
  | .validateTOTP code secret, r => r = true →
      ∃ n, env.totpValidate (env.clock n) code secret = true
  | _, _ => True

/-- The moments at which requests are made. -/
structure Made (w₀ : World) (o : Op) (w : World) : Prop where
  sound : Sound env w
  allowed : Allowed env w o
  onward : Onward w₀ w

end Cell

variable {env : Env} {cfg : Config} {w w₀ : World} {id : String}

theorem fits_store (hw : Sound env w) (ho : Onward w₀ w) {o : StoreOp} (hG : Guard w.ledger o) :
    Fits env w₀ (.store o) (handle env (.store o) w).1 := by
  have hs := (handle_store hw o hG).2
  cases o with
  | getUserByID id => exact fun u hu => hw.keyed.user (hs.2.1 u hu)
  | getToken hash =>
    intro tok t htok ht
    obtain ⟨t', ht', hissued, _⟩ := ho.ledger.token ht
    obtain rfl := Option.some.inj (ht'.symm.trans (hs.2 tok htok))
    exact (congrArg Token.userID hissued :)
  | _ => trivial

theorem record_keeps (hw : Sound env w) {o : StoreOp} (hG : Guard w.ledger o) {v : User}
    (hv : w.ledger.user id = some v)
    (hsame : (record env id).write (.store o) = none ∨
      (record env id).accepted (.store o) (handle env (.store o) w).1 = false) :
    (handle env (.store o) w).2.ledger.user id = some v := by
  have hs := (handle_store hw o hG).2
  obtain he | ⟨u, u', rfl, hk, he⟩ | ⟨u, old, u', rfl, _, hk, he⟩ := step_user hs
  · rw [he, hv]
  · rw [he, putUser_other, hv]
    rintro rfl
    rw [hk.id, hG.1] at hv
    cases hv
  · obtain ⟨_, hnothing, _⟩ | ⟨hok, _⟩ := hs
    · rw [hnothing, hv]
    obtain hwrite | hrefused := hsame
    · rw [he, putUser_other, hv]
      rw [hk.id]
      rintro rfl
      exact absurd (hwrite.symm.trans (if_pos rfl)) (by simp)
    · rw [hok] at hrefused
      cases hrefused

theorem record_read (hw : Sound env w) {o : Op} (ha : Allowed env w o) {v : User}
    (hread : (record env id).read o (handle env o w).1 = some v) : w.ledger.user id = some v := by
  cases o with
  | store o =>
    have hs := (handle_store hw o ha.1).2
    cases o with
    | getUserByID id' =>
      change (if id' = id then (handle env (.store (.getUserByID id')) w).1.toOption else none) =
        some v at hread
      by_cases hid : id' = id
      · rw [if_pos hid] at hread
        subst hid
        cases hr : (handle env (.store (.getUserByID id')) w).1 with
        | error e =>
          rw [hr] at hread
          cases hread
        | ok u =>
          rw [hr] at hread
          cases hread
          exact hs.2.1 v hr
      · rw [if_neg hid] at hread
        cases hread
    | _ => cases hread
  | _ => cases hread

theorem record_write (hw : Sound env w) {o : Op} (ha : Allowed env w o) {u v : User}
    (hv : w.ledger.user id = some v) (hwrite : (record env id).write o = some u)
    (haccepted : (record env id).accepted o (handle env o w).1 = true) :
    ∃ v', Updates env.cases v u v' ∧ (handle env o w).2.ledger.user id = some v' := by
  cases o with
  | store o =>
    have hs := (handle_store hw o ha.1).2
    cases o with
    | updateUser u' =>
      change (if u'.id = id then some u' else none) = some u at hwrite
      by_cases hid : u'.id = id
      · rw [if_pos hid] at hwrite
        cases hwrite
        subst hid
        obtain ⟨hfailed, _⟩ | ⟨_, old, v', hold, hupd, he⟩ := hs
        · exact absurd (haccepted.symm.trans hfailed) (by simp)
        · obtain rfl := Option.some.inj (hold.symm.trans hv)
          refine ⟨v', hupd, ?_⟩
          rw [he, ← hupd.id]
          exact putUser_self w.ledger v'
      · rw [if_neg hid] at hwrite
        cases hwrite
    | _ => cases hwrite
  | _ => cases hwrite

theorem ledger_local {o : Op} (ho : ∀ o', o ≠ .store o') (w : World) :
    (handle env o w).2.ledger = w.ledger :=
  congrArg Store.ledger (@store_handle env o ho w).1

theorem lawful_record : Lawful (handle env) (record env id) (Fits env w₀) (Made env w₀) where
  fits o w hmade := by
    cases o with
    | store o => exact fits_store (hmade rfl).sound (hmade rfl).onward (hmade rfl).allowed.1
    | hashPassword password => exact fun hash hr => ⟨w.ticks, hr⟩
    | validateTOTP code secret => exact fun hr => ⟨w.ticks, hr⟩
    | _ => trivial
  value_local o w hy := by
    have hl : (handle env o w).2.ledger = w.ledger :=
      ledger_local (fun o' ho => by rw [ho] at hy; cases hy) w
    exact congrArg (fun l : Ledger => l.user id) hl
  read_local o r hy := by
    cases o with
    | store o => cases hy
    | _ => rfl
  write_local o hy := by
    cases o with
    | store o => cases hy
    | _ => rfl
  read _ _ _ hmade hread := record_read hmade.sound hmade.allowed hread
  keeps o w v hmade hv hsame := by
    by_cases ho : ∃ o', o = .store o'
    · obtain ⟨o, rfl⟩ := ho
      exact record_keeps hmade.sound hmade.allowed.1 hv hsame
    · have hl : (handle env o w).2.ledger = w.ledger :=
        ledger_local (fun o' h => ho ⟨o', h⟩) w
      change (handle env o w).2.ledger.user id = some v
      rw [hl]
      exact hv
  write _ _ _ _ hmade hv hwrite haccepted :=
    record_write hmade.sound hmade.allowed hv hwrite haccepted

section Programs

variable {α β : Type} {E : User → User → Prop} {φ : Phase User}

/-- A call that has succeeded has made its edit. -/
def Settles (φ : Phase User) (r : Except Err α) : Prop := r.isOk = true → φ = .done

theorem edits_fail (e : Err) :
    Edits (record env id) (Fits env w₀) E Settles (fail e : Prog α) φ :=
  edits_pure.mpr fun h => by cases h

theorem edits_done (a : α) :
    Edits (record env id) (Fits env w₀) E Settles (done a : Prog α) .done :=
  edits_pure.mpr fun _ => rfl

theorem edits_orReturn {p : Prog α} {k : α → Prog β}
    (hp : Edits (record env id) (Fits env w₀) E (fun φ r => ∀ a, r = .ok a →
      Edits (record env id) (Fits env w₀) E Settles (k a) φ) p φ) :
    Edits (record env id) (Fits env w₀) E Settles (orReturn p k) φ := by
  refine edits_bind (edits_mono (fun φ r hr => ?_) hp)
  cases r with
  | error e => exact edits_fail e
  | ok a => exact hr a rfl

theorem edits_answering {f : α → Answer} {p : Prog α}
    (hp : Edits (record env id) (Fits env w₀) E Settles p φ) :
    Edits (record env id) (Fits env w₀) E Settles (answering f p) φ := by
  refine edits_orReturn (edits_mono (fun φ r hr a ha => ?_) hp)
  obtain rfl : φ = .done := hr (by rw [ha]; rfl)
  exact edits_done (f a)

theorem edits_getUser {Post : Phase User → Except Err β → Prop} {k : Except Err User → Prog β}
    (hfound : ∀ u, u.id = id → Edits (record env id) (Fits env w₀) E Post (k (.ok u)) (.holding u))
    (hmissed : ∀ e, Edits (record env id) (Fits env w₀) E Post (k (.error e)) .idle) :
    Edits (record env id) (Fits env w₀) E Post ((store (.getUserByID id)).bind k) .idle := by
  have hread : ∀ r : Except Err User,
      (record env id).read (.store (.getUserByID id)) r = r.toOption := fun r => if_pos rfl
  refine edits_read rfl (fun r v hfits hv => ?_) fun r hr => ?_
  · rw [hread] at hv
    cases r with
    | error e => cases hv
    | ok u =>
      cases hv
      exact hfound v (hfits v rfl)
  · rw [hread] at hr
    cases r with
    | error e => exact hmissed e
    | ok u => cases hr

theorem edits_updateUser {u v : User} {k : Except Err Unit → Prog β} (hid : u.id = id)
    (hedit : E v u)
    (hdone : ∀ a, Edits (record env id) (Fits env w₀) E Settles (k (.ok a)) .done)
    (hrefused : ∀ e, Edits (record env id) (Fits env w₀) E Settles (k (.error e)) .idle) :
    Edits (record env id) (Fits env w₀) E Settles ((store (.updateUser u)).bind k)
      (.holding v) := by
  refine edits_write (if_pos hid) (fun _ => rfl) hedit (fun r hr => ?_) fun r hr => ?_
  · cases r with
    | error e => cases hr
    | ok a => exact hdone a
  · cases r with
    | error e => exact hrefused e
    | ok a => cases hr

/-- The write that a call ends with. -/
theorem edits_store {u v : User} (hid : u.id = id) (hedit : E v u) :
    Edits (record env id) (Fits env w₀) E Settles (store (.updateUser u)) (.holding v) :=
  edits_updateUser (k := .pure) hid hedit (fun a => edits_pure.mpr fun _ => rfl)
    fun e => edits_pure.mpr fun h => by cases h

theorem edits_hashPassword {password : String} {k : String → Prog β}
    (hk : ∀ hash n, env.bcryptGenerate n password = .ok hash →
      Edits (record env id) (Fits env w₀) E Settles (k hash) φ) :
    Edits (record env id) (Fits env w₀) E Settles (orReturn (hashPassword password) k) φ := by
  refine edits_other rfl (fun _ => rfl) fun r hr => ?_
  cases r with
  | error e => exact edits_fail e
  | ok hash =>
    obtain ⟨n, hn⟩ := hr hash rfl
    exact hk hash n hn

theorem edits_loadToken {raw : String} {purpose : TokenPurpose} (ho : Owned env raw id w₀) :
    Edits (record env id) (Fits env w₀) E (fun φ r => ∀ t, r = .ok t →
      φ = .holding t.2 ∧ t.2.id = id) (loadToken env raw purpose) .idle := by
  have hfail : ∀ (e : Err) (φ : Phase User), Edits (record env id) (Fits env w₀) E
      (fun φ r => ∀ t, r = .ok t → φ = .holding t.2 ∧ t.2.id = id)
      (fail e : Prog (Token × User)) φ :=
    fun e φ => edits_pure.mpr fun t ht => by cases ht
  obtain ⟨t, ht, hid⟩ := ho
  refine edits_other rfl (fun _ => rfl) fun r hr => ?_
  cases r with
  | error e => exact hfail _ _
  | ok tok =>
    have howner : tok.userID = id := (hr tok t rfl ht).trans hid
    simp only [Program.pure_bind]
    split
    · exact hfail _ _
    split
    · exact hfail _ _
    refine edits_other rfl (fun _ => rfl) fun now _ => ?_
    split
    · exact hfail _ _
    rw [howner]
    refine edits_getUser (fun u hu => ?_) fun e => hfail _ _
    refine edits_pure.mpr fun t ht => ?_
    cases ht
    exact ⟨rfl, hu⟩

end Programs

/-- What a call writes of the record it has read. -/
def Writes (env : Env) (c : Call) (v u : User) : Prop := ∃ d, Drawn env d c ∧ u = edit env d c v

theorem writes_of_edit {c : Call} {v u : User} (d : Draw) (hd : Drawn env d c)
    (h : edit env d c v = u) : Writes env c v u := ⟨d, hd, h.symm⟩

theorem edits_changePassword (current next : String) :
    Edits (record env id) (Fits env w₀) (Writes env (.changePassword id current next)) Settles
      (changePassword env id current next) .idle := by
  refine edits_getUser (fun u hu => ?_) fun e => edits_fail _
  change Edits _ _ _ _ (if !checkPassword env current u.passwordHash then _ else _) _
  split
  · exact edits_fail _
  rename_i hcheck
  cases hvalid : validatePasswordFor env.cases next u.email u.organisation with
  | error e => exact edits_fail e
  | ok _ =>
    refine edits_hashPassword fun hash n hn => edits_store hu ?_
    refine writes_of_edit ⟨hash, 0⟩ ⟨n, hn⟩ (if_pos ?_)
    rw [hvalid, Except.isOk, Except.toBool, Bool.and_true]
    simpa using hcheck

theorem edits_confirmMFA (code : String) :
    Edits (record env id) (Fits env w₀) (Writes env (.confirmMFA id code)) Settles
      (confirmMFA id code) .idle := by
  refine edits_getUser (fun u hu => ?_) fun e => edits_fail _
  change Edits _ _ _ _ (totpValid u code _) _
  unfold totpValid
  split
  · exact edits_fail _
  rename_i hsecret
  refine edits_other rfl (fun _ => rfl) fun valid hvalid => ?_
  cases valid with
  | false => exact edits_fail _
  | true =>
    obtain ⟨n, hn⟩ := hvalid rfl
    exact edits_store hu (writes_of_edit ⟨"", env.clock n⟩ ⟨n, rfl⟩ (if_pos ⟨hsecret, hn⟩))

theorem edits_disableMFA (password : String) :
    Edits (record env id) (Fits env w₀) (Writes env (.disableMFA id password)) Settles
      (disableMFA env id password) .idle := by
  refine edits_getUser (fun u hu => ?_) fun e => edits_fail _
  change Edits _ _ _ _ (if !checkPassword env password u.passwordHash then _ else _) _
  split
  · exact edits_fail _
  rename_i hcheck
  exact edits_store hu (writes_of_edit ⟨"", 0⟩ trivial (if_pos (by simpa using hcheck)))

theorem edits_resetPassword {raw : String} (newPassword : String) (ho : Owned env raw id w₀) :
    Edits (record env id) (Fits env w₀) (Writes env (.resetPassword raw newPassword)) Settles
      (resetPassword env raw newPassword) .idle := by
  refine edits_orReturn (edits_mono (fun φ r hr t ht => ?_) (edits_loadToken ho))
  obtain ⟨rfl, hu⟩ := hr t ht
  obtain ⟨tok, u⟩ := t
  dsimp only
  cases hvalid : validatePasswordFor env.cases newPassword u.email u.organisation with
  | error e => exact edits_fail e
  | ok _ =>
    refine edits_hashPassword fun hash n hn => ?_
    refine edits_other rfl (fun _ => rfl) fun r _ => ?_
    cases r with
    | error e => exact edits_fail e
    | ok _ =>
      refine edits_updateUser hu ?_ (fun _ => ?_) fun e => edits_fail e
      · exact writes_of_edit ⟨hash, 0⟩ ⟨n, hn⟩ (if_pos (by rw [hvalid]; rfl))
      · exact edits_other rfl (fun _ => rfl) fun r _ => edits_pure.mpr fun _ => rfl

theorem edits_verifyEmail {raw : String} (ho : Owned env raw id w₀) :
    Edits (record env id) (Fits env w₀) (Writes env (.verifyEmail raw)) Settles
      (verifyEmail env raw) .idle := by
  refine edits_orReturn (edits_bind (edits_mono (fun φ r hr => ?_) (edits_loadToken ho)))
  cases r with
  | error e => exact edits_pure.mpr fun u hu => by cases hu
  | ok t =>
    obtain ⟨rfl, hu⟩ := hr t rfl
    refine edits_other rfl (fun _ => rfl) fun r _ => ?_
    cases r with
    | error e => exact edits_pure.mpr fun u hu => by cases hu
    | ok _ =>
      refine edits_pure.mpr fun u hu' => ?_
      cases hu'
      exact edits_store hu (writes_of_edit ⟨"", 0⟩ trivial rfl)

/-- The handlers look up a record without its secrets. -/
theorem edits_lookup {β : Type} {E : User → User → Prop} {e : Err} {k : User → Prog β}
    (hk : ∀ u, u.id = id →
      Edits (record env id) (Fits env w₀) E Settles (k (publicUser u)) (.holding u)) :
    Edits (record env id) (Fits env w₀) E Settles (orFail (lookupByID id) e k) .idle :=
  edits_getUser hk fun _ => edits_fail e

theorem edits_patchMe (body : Option String) :
    Edits (record env id) (Fits env w₀) (Writes env (.patchMe id body)) Settles
      (patchMe id body) .idle := by
  unfold patchMe
  split
  · exact edits_fail _
  split
  · exact edits_fail _
  refine edits_lookup fun u hu => ?_
  refine edits_updateUser hu ?_ (fun _ => edits_done _) fun _ => edits_fail _
  exact writes_of_edit ⟨"", 0⟩ trivial rfl

theorem edits_patchWorkspaceRole (callerID callerTenant : String) (body : Option String) :
    Edits (record env id) (Fits env w₀)
      (Writes env (.patchWorkspaceRole callerID callerTenant id body)) Settles
      (patchWorkspaceRole env.cases callerID callerTenant id body) .idle := by
  unfold patchWorkspaceRole
  split
  · exact edits_fail _
  extract_lets raw
  split
  · exact edits_fail _
  refine edits_lookup fun u hu => ?_
  split
  · exact edits_fail _
  rename_i htenant
  extract_lets target
  split
  · exact edits_fail _
  rename_i hself
  refine edits_updateUser hu ?_ (fun _ => edits_done _) fun _ => edits_fail _
  exact writes_of_edit ⟨"", 0⟩ trivial (if_neg (not_or.mpr ⟨htenant, hself⟩))

/-- Each of the operations reads the record of its user and then writes its edit of it. -/
theorem edits_program {c : Call} (hc : Acts env w₀ id c) :
    Edits (record env id) (Fits env w₀) (Writes env c) Settles (program env cfg c) .idle := by
  cases c with
  | changePassword userID current next =>
    obtain rfl : userID = id := hc
    exact edits_answering (edits_changePassword current next)
  | confirmMFA userID code =>
    obtain rfl : userID = id := hc
    exact edits_answering (edits_confirmMFA code)
  | disableMFA userID password =>
    obtain rfl : userID = id := hc
    exact edits_answering (edits_disableMFA password)
  | resetPassword raw newPassword =>
    exact edits_answering (edits_resetPassword newPassword hc)
  | verifyEmail raw => exact edits_answering (edits_verifyEmail hc)
  | patchMe callerID body =>
    obtain rfl : callerID = id := hc
    exact edits_answering (edits_patchMe body)
  | patchWorkspaceRole callerID callerTenant id' body =>
    obtain rfl : id' = id := hc
    exact edits_answering (edits_patchWorkspaceRole callerID callerTenant body)
  | _ => exact hc.elim

/-- The records differ at most in their time stamps and in how a blank secret is written. -/
def Like (u v : User) : Prop :=
  ∃ secret updated, v = { u with mfaSecret := secret, updatedAt := updated } ∧
    (secret = u.mfaSecret ∨ trimSpace u.mfaSecret = "" ∧ secret = "")

theorem like_refl (u : User) : Like u u := ⟨u.mfaSecret, u.updatedAt, rfl, Or.inl rfl⟩

theorem like_trans {u v x : User} (huv : Like u v) (hvx : Like v x) : Like u x := by
  obtain ⟨s, t, rfl, hs⟩ := huv
  obtain ⟨s', t', rfl, hs'⟩ := hvx
  refine ⟨s', t', rfl, ?_⟩
  change s' = s ∨ trimSpace s = "" ∧ s' = "" at hs'
  obtain rfl | ⟨hblank, rfl⟩ := hs'
  · exact hs
  · obtain rfl | ⟨hblank', _⟩ := hs
    · exact Or.inr ⟨hblank, rfl⟩
    · exact Or.inr ⟨hblank', rfl⟩

theorem edit_identity (d : Draw) (c : Call) (u : User) :
    (edit env d c u).tenantID = u.tenantID ∧ (edit env d c u).email = u.email ∧
      (edit env d c u).createdAt = u.createdAt := by
  cases c with
  | changePassword | resetPassword | confirmMFA | disableMFA =>
    simp only [edit]
    split <;> exact ⟨rfl, rfl, rfl⟩
  | patchMe callerID body => cases body <;> exact ⟨rfl, rfl, rfl⟩
  | patchWorkspaceRole callerID callerTenant id body =>
    cases body with
    | none => exact ⟨rfl, rfl, rfl⟩
    | some role =>
      simp only [edit]
      split <;> exact ⟨rfl, rfl, rfl⟩
  | _ => exact ⟨rfl, rfl, rfl⟩

/-- What is stored of an edit is the edit. -/
theorem like_of_updates {c : Call} {d : Draw} {v m : User}
    (h : Updates env.cases v (edit env d c v) m) : Like (edit env d c v) m := by
  obtain ⟨htenant, hemail, hcreated⟩ := @edit_identity env d c v
  refine ⟨m.mfaSecret, m.updatedAt, ?_, h.mfaSecret⟩
  apply User.ext
  · exact h.id
  · exact (h.sameTenant htenant).trans htenant.symm
  · exact (h.sameEmail hemail).trans hemail.symm
  · exact h.name
  · exact h.role
  · exact h.organisation
  · exact h.passwordHash
  · exact h.emailVerified
  · exact h.mfaEnabled
  · rfl
  · exact h.disabled
  · exact (h.sameCreation hcreated).trans hcreated.symm
  · rfl

theorem trimSpace_empty : trimSpace "" = "" := by decide

theorem like_ite {p q : Prop} [Decidable p] [Decidable q] {u v x y : User} (hpq : p ↔ q)
    (hx : Like x y) (hu : Like u v) : Like (if p then x else u) (if q then y else v) := by
  by_cases hp : p
  · rw [if_pos hp, if_pos (hpq.mp hp)]
    exact hx
  · rw [if_neg hp, if_neg (fun hq => hp (hpq.mpr hq))]
    exact hu

/-- An edit does not tell such records apart. -/
theorem edit_like (d : Draw) (c : Call) {u v : User} (h : Like u v) :
    Like (edit env d c u) (edit env d c v) := by
  obtain ⟨s, t, rfl, hs⟩ := h
  cases c with
  | changePassword | resetPassword => exact like_ite Iff.rfl ⟨s, t, rfl, hs⟩ ⟨s, t, rfl, hs⟩
  | confirmMFA userID code =>
    refine like_ite ?_ ⟨s, t, rfl, hs⟩ ⟨s, t, rfl, hs⟩
    obtain rfl | ⟨hblank, rfl⟩ := hs
    · exact Iff.rfl
    · exact iff_of_false (fun h => h.1 hblank) fun h => h.1 trimSpace_empty
  | disableMFA => exact like_ite Iff.rfl ⟨"", t, rfl, Or.inl rfl⟩ ⟨s, t, rfl, hs⟩
  | patchMe callerID body =>
    cases body with
    | none => exact ⟨s, t, rfl, hs⟩
    | some name => exact ⟨"", t, rfl, Or.inl rfl⟩
  | patchWorkspaceRole callerID callerTenant id body =>
    cases body with
    | none => exact ⟨s, t, rfl, hs⟩
    | some role =>
      simp only [edit]
      generalize normalizeRole env.cases (toLower env.cases (trimSpace role)) = r
      exact like_ite Iff.rfl ⟨s, t, rfl, hs⟩ ⟨"", t, rfl, Or.inl rfl⟩
  | _ => exact ⟨s, t, rfl, hs⟩

theorem same_of_like (c : Call) {u v : User} (h : Like u v) : Same c u v := by
  obtain ⟨s, t, rfl, hs⟩ := h
  cases c with
  | disableMFA =>
    refine ⟨rfl, ?_⟩
    change trimSpace u.mfaSecret = trimSpace s
    obtain rfl | ⟨hblank, rfl⟩ := hs
    · rfl
    · rw [hblank, trimSpace_empty]
  | changePassword | resetPassword | confirmMFA | verifyEmail | patchMe | patchWorkspaceRole => rfl
  | _ => trivial

/-- The orders in which some of two threads can come. -/
theorem orders_of_two {order : List Nat} (hnodup : order.Nodup) (hbound : ∀ i ∈ order, i < 2) :
    order = [] ∨ order = [0] ∨ order = [1] ∨ order = [0, 1] ∨ order = [1, 0] := by
  match order, hnodup, hbound with
  | [], _, _ => simp
  | [i], _, hbound =>
    have hi := hbound i (by simp)
    obtain rfl | rfl : i = 0 ∨ i = 1 := by omega
    · simp
    · simp
  | [i, j], hnodup, hbound =>
    have hi := hbound i (by simp)
    have hj := hbound j (by simp)
    have hij : i ≠ j := by
      rintro rfl
      simp at hnodup
    obtain ⟨rfl, rfl⟩ | ⟨rfl, rfl⟩ : (i = 0 ∧ j = 1) ∨ (i = 1 ∧ j = 0) := by omega
    · simp
    · simp
  | i :: j :: k :: order, hnodup, hbound =>
    have hi := hbound i (by simp)
    have hj := hbound j (by simp)
    have hk := hbound k (by simp)
    simp only [List.nodup_cons, List.mem_cons, not_or] at hnodup
    omega

section Runs

variable (hf : Fresh env) (cfg : Config)
include hf

/-- The conduct of calls that started in `w₀`. -/
def since (env : Env) (w₀ : World) : Discipline (handle env) :=
  (conduct env).extend (Onward w₀) (fun _ _ => True) (fun _ _ => True) (fun _ => trivial)
    (fun _ _ => trivial)
    (fun _ w hy hw ho =>
      ⟨onward_trans ho ((conduct env).keeps_local _ w hy hw).2, trivial⟩)
    (fun _ w hy hw ho ha _ =>
      ⟨onward_trans ho ((conduct env).keeps _ w hy hw ha).2, trivial⟩)

omit hf in
theorem since_admits : Admits (since env w₀) (fun _ => False) :=
  ⟨fun hw => hw.1, fun hr => hr.1, fun ha => ha.1, fun _ _ ha => ⟨ha, trivial⟩⟩

theorem made_along (hw : Sound env w) (calls : List Call) (sched : List Nat) :
    (together env cfg calls w).Along (handle env) (fun _ o w' => Made env w o w') sched := by
  have hkept : Kept (since env w) (fun _ _ _ => True) (together env cfg calls w) := by
    refine kept_of_conducts ⟨hw, onward_refl w⟩ fun p hp => ?_
    obtain ⟨c, _, rfl⟩ := List.mem_map.mp hp
    exact conducts_program hf cfg since_admits c fun _ _ h => h
  have htrivial : ∀ (sched : List Nat) (c : Pool Calls World (Except Err Answer)),
      c.Along (handle env) (fun _ _ _ => True) sched := by
    intro sched
    induction sched with
    | nil => exact fun _ => trivial
    | cons i sched ih => exact fun c => ⟨fun _ _ => trivial, ih _⟩
  exact along_of_kept (fun hg => hg)
    (fun _ _ _ hw' hG _ => ⟨hw'.1, hG.1, hw'.2⟩) sched hkept (htrivial sched _)

omit hf in
/-- Two edits in the order in which they were stored. -/
theorem like_of_led {c : Nat → Call} {i j : Nat} {u v : User}
    (h : Led (record env id) (fun i => Writes env (c i)) [i, j] u v) :
    ∃ d d', Drawn env d (c i) ∧ Drawn env d' (c j) ∧
      Like (edit env d' (c j) (edit env d (c i) u)) v := by
  obtain ⟨_, m, ⟨d, hd, rfl⟩, hm, _, _, ⟨d', hd', rfl⟩, hv, rfl⟩ := h
  refine ⟨d, d', hd, hd', like_trans (edit_like d' (c j) (like_of_updates hm)) ?_⟩
  exact like_of_updates hv

omit hf in
theorem like_of_led_one {c : Nat → Call} {i : Nat} {u v : User}
    (h : Led (record env id) (fun i => Writes env (c i)) [i] u v) :
    ∃ d, Drawn env d (c i) ∧ Like (edit env d (c i) u) v := by
  obtain ⟨_, _, ⟨d, hd, rfl⟩, hv, rfl⟩ := h
  exact ⟨d, hd, like_of_updates hv⟩

/-- Two operations on the record of a user leave what they are meant to set as one of their
serial orders would, in every interleaving in which neither writes a record that the other has
written since it was read. -/
theorem edits_serialize (hw : Reachable env cfg w) {u : User} (hu : w.ledger.user id = some u)
    {c₀ c₁ : Call} (h₀ : Acts env w id c₀) (h₁ : Acts env w id c₁) (sched : List Nat)
    {r₀ r₁ : Except Err Answer}
    (hr₀ : ((together env cfg [c₀, c₁] w).run (handle env) sched).returned 0 = some r₀)
    (hr₁ : ((together env cfg [c₀, c₁] w).run (handle env) sched).returned 1 = some r₁)
    (hsched : Undisturbed (handle env) (record env id) [] (together env cfg [c₀, c₁] w) sched) :
    ∃ v, ((together env cfg [c₀, c₁] w).run (handle env) sched).world.ledger.user id = some v ∧
      Serial env c₀ c₁ r₀ r₁ u v := by
  let c : Nat → Call := fun i => if i = 0 then c₀ else c₁
  have hedits : ∀ i p, (together env cfg [c₀, c₁] w).threads[i]? = some p →
      Edits (record env id) (Fits env w) (Writes env (c i)) Settles p .idle := by
    rintro (_ | _ | i) p hp
    · obtain rfl := Option.some.inj hp
      exact edits_program h₀
    · obtain rfl := Option.some.inj hp
      exact edits_program h₁
    · cases hp
  have hfirst : (record env id).value (together env cfg [c₀, c₁] w).world = some u := hu
  obtain ⟨order, hnodup, hbound, hreturned, v, hv, hled⟩ :=
    edits_in_order sched lawful_record hfirst hedits
      (made_along hf cfg (reachable_sound hf cfg hw) [c₀, c₁] sched) hsched
  refine ⟨v, hv, ?_⟩
  -- a call that has not made its edit has failed
  have hfailed : ∀ i r, ((together env cfg [c₀, c₁] w).run (handle env) sched).returned i =
      some r → i ∉ order → r.isOk = false := by
    intro i r hr hi
    obtain ⟨φ, hsettles, hdone⟩ := hreturned i r hr
    cases hok : r.isOk with
    | false => rfl
    | true => exact absurd (hdone.mp (hsettles hok)) hi
  obtain rfl | rfl | rfl | rfl | rfl := orders_of_two hnodup hbound
  · obtain rfl : v = u := hled
    exact ⟨_, _, Or.inr ⟨hfailed 0 r₀ hr₀ (by simp), rfl⟩,
      Or.inr ⟨hfailed 1 r₁ hr₁ (by simp), rfl⟩,
      Or.inl ⟨same_of_like c₀ (like_refl v), same_of_like c₁ (like_refl v)⟩⟩
  · obtain ⟨d, hd, hlike⟩ := like_of_led_one hled
    exact ⟨_, _, Or.inl ⟨d, hd, rfl⟩, Or.inr ⟨hfailed 1 r₁ hr₁ (by simp), rfl⟩,
      Or.inl ⟨same_of_like c₀ hlike, same_of_like c₁ hlike⟩⟩
  · obtain ⟨d, hd, hlike⟩ := like_of_led_one hled
    exact ⟨_, _, Or.inr ⟨hfailed 0 r₀ hr₀ (by simp), rfl⟩, Or.inl ⟨d, hd, rfl⟩,
      Or.inl ⟨same_of_like c₀ hlike, same_of_like c₁ hlike⟩⟩
  · obtain ⟨d, d', hd, hd', hlike⟩ := like_of_led hled
    exact ⟨_, _, Or.inl ⟨d, hd, rfl⟩, Or.inl ⟨d', hd', rfl⟩,
      Or.inl ⟨same_of_like c₀ hlike, same_of_like c₁ hlike⟩⟩
  · obtain ⟨d, d', hd, hd', hlike⟩ := like_of_led hled
    exact ⟨_, _, Or.inl ⟨d', hd', rfl⟩, Or.inl ⟨d, hd, rfl⟩,
      Or.inr ⟨same_of_like c₀ hlike, same_of_like c₁ hlike⟩⟩

end Runs

/-- A user who has asked for a second factor and not confirmed it yet. -/
def enrolling : World := demo [.register "Ada" "ada@example.org" "Tr0ub4dor-lake" "", .setupMFA "00"]

theorem reachable_enrolling : Reachable plain demoConfig enrolling := reachable_demo _

def newPassword : Call := .changePassword "00" "Tr0ub4dor-lake" "Harb0ur-lantern"

def confirmation : Call := .confirmMFA "00" "SSSSSSS"

/-- The two of them, under a schedule. -/
def both (sched : List Nat) : Pool Calls World (Except Err Answer) :=
  (together plain demoConfig [newPassword, confirmation] enrolling).run (handle plain) sched

/-- One after the other they do not disturb each other. -/
theorem edits_serialize_enrolling : ∃ (u v : User) (r₀ r₁ : Except Err Answer),
    (both [0, 0, 1, 1]).world.ledger.user "00" = some v ∧
      Serial plain newPassword confirmation r₀ r₁ u v := by
  obtain ⟨u, hu⟩ := Option.isSome_iff_exists.mp
    (by decide +kernel : (enrolling.ledger.user "00").isSome = true)
  obtain ⟨r₀, hr₀⟩ := Option.isSome_iff_exists.mp
    (by decide +kernel : ((both [0, 0, 1, 1]).returned 0).isSome = true)
  obtain ⟨r₁, hr₁⟩ := Option.isSome_iff_exists.mp
    (by decide +kernel : ((both [0, 0, 1, 1]).returned 1).isSome = true)
  have hacts₀ : Acts plain enrolling "00" newPassword := rfl
  have hacts₁ : Acts plain enrolling "00" confirmation := rfl
  obtain ⟨v, hv, hserial⟩ := edits_serialize fresh_plain demoConfig reachable_enrolling hu
    hacts₀ hacts₁ [0, 0, 1, 1] hr₀ hr₁ (by decide +kernel)
  exact ⟨u, v, r₀, r₁, hv, hserial⟩

/-- A call that has succeeded has made its own edit. -/
theorem makes_ok {c : Call} {r : Except Err Answer} {f : User → User} (hr : r.isOk = true)
    (h : Makes env c r f) : ∃ d, Drawn env d c ∧ f = edit env d c := by
  obtain hedit | ⟨hfailed, _⟩ := h
  · exact hedit
  · rw [hr] at hfailed
    cases hfailed

theorem edit_confirmation (d : Draw) (u : User) :
    (edit plain d confirmation u).passwordHash = u.passwordHash ∧
      (edit plain d confirmation u).email = u.email ∧
      (edit plain d confirmation u).organisation = u.organisation := by
  simp only [edit, confirmation]
  split <;> exact ⟨rfl, rfl, rfl⟩

theorem edit_newPassword {d : Draw} (hd : Drawn plain d newPassword) {u v : User}
    (hu : enrolling.ledger.user "00" = some u) (hhash : v.passwordHash = u.passwordHash)
    (hemail : v.email = u.email) (horg : v.organisation = u.organisation) :
    (edit plain d newPassword v).passwordHash = "$2a$10$Harb0ur-lantern" := by
  have hguard : ∀ u ∈ enrolling.ledger.user "00",
      (checkPassword plain "Tr0ub4dor-lake" u.passwordHash &&
        (validatePasswordFor plain.cases "Harb0ur-lantern" u.email u.organisation).isOk) = true := by
    decide +kernel
  obtain ⟨n, hn⟩ := hd
  simp only [edit, newPassword, hhash, hemail, horg]
  rw [if_pos (hguard u hu)]
  exact (Except.ok.inj hn).symm

/-- Confirming the second factor while the password is changed restores the old one. -/
theorem confirmation_restores_password : ¬ ∀ (w : World) (id : String) (u : User) (c₀ c₁ : Call)
    (sched : List Nat) (r₀ r₁ : Except Err Answer), Reachable plain demoConfig w →
    w.ledger.user id = some u → Acts plain w id c₀ → Acts plain w id c₁ →
    ((together plain demoConfig [c₀, c₁] w).run (handle plain) sched).returned 0 = some r₀ →
    ((together plain demoConfig [c₀, c₁] w).run (handle plain) sched).returned 1 = some r₁ →
    ∃ v, ((together plain demoConfig [c₀, c₁] w).run (handle plain) sched).world.ledger.user id =
      some v ∧ Serial plain c₀ c₁ r₀ r₁ u v := by
  intro h
  obtain ⟨u, hu⟩ := Option.isSome_iff_exists.mp
    (by decide +kernel : (enrolling.ledger.user "00").isSome = true)
  obtain ⟨a₀, hr₀⟩ := exists_ok
    (by decide +kernel : ((both [0, 1, 0, 1]).returned 0).map Except.isOk = some true)
  obtain ⟨a₁, hr₁⟩ := exists_ok
    (by decide +kernel : ((both [0, 1, 0, 1]).returned 1).map Except.isOk = some true)
  obtain ⟨v, hv, f₀, f₁, h₀, h₁, hserial⟩ := h enrolling "00" u newPassword confirmation
    [0, 1, 0, 1] (.ok a₀) (.ok a₁) reachable_enrolling hu rfl rfl hr₀ hr₁
  obtain ⟨d, hd, rfl⟩ := makes_ok rfl h₀
  obtain ⟨d', _, rfl⟩ := makes_ok rfl h₁
  have hold : ∀ v ∈ (both [0, 1, 0, 1]).world.ledger.user "00",
      v.passwordHash = "$2a$10$Tr0ub4dor-lake" := by decide +kernel
  have hnew : v.passwordHash = "$2a$10$Harb0ur-lantern" := by
    obtain ⟨hsame, _⟩ | ⟨hsame, _⟩ := hserial
    · change (edit plain d' confirmation (edit plain d newPassword u)).passwordHash = _ at hsame
      rw [← hsame, (edit_confirmation d' _).1]
      exact edit_newPassword hd hu rfl rfl rfl
    · change (edit plain d newPassword (edit plain d' confirmation u)).passwordHash = _ at hsame
      obtain ⟨hhash, hemail, horg⟩ := edit_confirmation d' u
      rw [← hsame]
      exact edit_newPassword hd hu hhash hemail horg
  rw [hold v hv] at hnew
  exact absurd hnew (by decide)

end RivicQ.Properties.Overlaps
