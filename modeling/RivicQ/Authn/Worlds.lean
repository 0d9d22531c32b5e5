import RivicQ.Authn.Environment

namespace RivicQ.Authn.Worlds

open RivicQ.Lib.GoStrings RivicQ.Lib.Programs RivicQ.Lib.Disciplines RivicQ.Authn.Types RivicQ.Authn.Records
open RivicQ.Authn.Stores RivicQ.Authn.Environment

variable (env : Env)

/-- An identifier generated before tick `n`. -/
def Named (n : Nat) (id : String) : Prop := ∃ m < n, id = env.uuid m

/-- The digest of a token generated before tick `n`. -/
def Digested (n : Nat) (hash : String) : Prop :=
  ∃ m < n, ∃ raw, env.randomHex m = .ok raw ∧ hash = hashToken env raw

/-- The store is well formed and holds only what was generated so far. -/
structure Sound (w : World) : Prop where
  store : w.store.WellFormed env.cases
  keyed : WellKeyed w.ledger
  userID : ∀ {id u}, w.ledger.user id = some u → Named env w.ticks id
  sessionID : ∀ {id s}, w.ledger.session id = some s → Named env w.ticks id
  refreshHash : ∀ {id s}, w.ledger.session id = some s → Digested env w.ticks s.refreshHash
  token : ∀ {hash t}, w.ledger.token hash = some t → Digested env w.ticks hash
  retired : Retired w.ledger

/-- What a record is created under was generated before it is stored. -/
def Generated (n : Nat) : StoreOp → Prop
  | .createUser u => Named env n u.id
  | .createSession s => Named env n s.id ∧ Digested env n s.refreshHash
  | .createToken t => Digested env n t.hash
  | _ => True

/-- The requests the service may make of a world. -/
def Allowed (w : World) : Op → Prop
  | .store o => Guard w.ledger o ∧ Generated env w.ticks o
  | _ => True

/-- Time goes on, the kind of store stays, and the ledger only moves forward. -/
structure Onward (w w' : World) : Prop where
  ledger : Evolves w.ledger w'.ledger
  ticks : w.ticks ≤ w'.ticks
  total : w'.store.total = w.store.total

theorem onward_refl (w : World) : Onward w w := ⟨evolves_refl _, Nat.le_refl _, rfl⟩

theorem onward_trans {u v w : World} (huv : Onward u v) (hvw : Onward v w) : Onward u w :=
  ⟨evolves_trans huv.ledger hvw.ledger, Nat.le_trans huv.ticks hvw.ticks,
    hvw.total.trans huv.total⟩

variable {env} {w : World}

theorem named_mono {m n : Nat} (h : m ≤ n) {id : String} (hid : Named env m id) : Named env n id := by
  obtain ⟨k, hk, hid⟩ := hid
  exact ⟨k, Nat.lt_of_lt_of_le hk h, hid⟩

theorem digested_mono {m n : Nat} (h : m ≤ n) {hash : String} (hh : Digested env m hash) :
    Digested env n hash := by
  obtain ⟨k, hk, hh⟩ := hh
  exact ⟨k, Nat.lt_of_lt_of_le hk h, hh⟩

/-- What the next draw yields is not in use. -/
theorem not_named (hf : Fresh env) {m n : Nat} (h : m ≤ n) : ¬ Named env m (env.uuid n) := by
  rintro ⟨k, hk, hid⟩
  have := hf.uuid hid
  omega

theorem not_digested (hf : Fresh env) {m n : Nat} (h : m ≤ n) {raw : String}
    (hr : env.randomHex n = .ok raw) : ¬ Digested env m (hashToken env raw) := by
  rintro ⟨k, hk, raw', hr', hh⟩
  have := hf.token hr hr' hh
  omega

theorem sound_start {st : Store} (h : Store.Empty st) : Sound env ⟨st, ∅, ∅, 0⟩ := by
  have hl : World.ledger ⟨st, ∅, ∅, 0⟩ = _ := Store.ledger_empty h
  refine ⟨Store.wellFormed_empty h, ?_, ?_, ?_, ?_, ?_, ?_⟩
  · rw [hl]
    constructor <;> intros <;> contradiction
  all_goals
    intro key r hr
    rw [hl] at hr
    cases hr

/-- A world with the same store and a later clock is as good. -/
theorem sound_of_store {w' : World} (hw : Sound env w) (hs : w'.store = w.store)
    (ht : w.ticks ≤ w'.ticks) : Sound env w' := by
  have hl : w'.ledger = w.ledger := congrArg Store.ledger hs
  refine ⟨hs ▸ hw.store, hl ▸ hw.keyed, ?_, ?_, ?_, ?_, hl ▸ hw.retired⟩ <;> rw [hl] <;>
    intro key r hr
  · exact named_mono ht (hw.userID hr)
  · exact named_mono ht (hw.sessionID hr)
  · exact digested_mono ht (hw.refreshHash hr)
  · exact digested_mono ht (hw.token hr)

theorem onward_of_store {w' : World} (hs : w'.store = w.store) (ht : w.ticks ≤ w'.ticks) :
    Onward w w' := by
  refine ⟨?_, ht, by rw [hs]⟩
  have hl : w'.ledger = w.ledger := congrArg Store.ledger hs
  rw [hl]
  exact evolves_refl _

/-- What a store request does to a sound world. -/
theorem handle_store (hw : Sound env w) (o : StoreOp) (hG : Guard w.ledger o) :
    (handle env (.store o) w).2.store.WellFormed env.cases ∧
      Step env.cases w.store.total w.ledger (handle env (.store o) w).2.ledger o
        (handle env (.store o) w).1 :=
  Store.exec_step hw.store hw.keyed _ _ _ hG

theorem sound_store (hw : Sound env w) {o : StoreOp} (hG : Guard w.ledger o)
    (hN : Generated env w.ticks o) :
    Sound env (handle env (.store o) w).2 ∧ Onward w (handle env (.store o) w).2 := by
  obtain ⟨hwf, hs⟩ := handle_store hw o hG
  obtain ⟨hk, he⟩ := step_keeps hw.keyed hG hs
  have ho := step_origins hw.keyed hG hs
  have ht : w.ticks ≤ (handle env (.store o) w).2.ticks := Nat.le_add_right _ 2
  refine ⟨⟨hwf, hk, ?_, ?_, ?_, ?_, step_retired hw.retired hG hs⟩, he, ht, Store.total_exec _ _ _ o⟩
  · intro id u' hu'
    obtain ⟨u, hu⟩ | ⟨u, rfl, rfl⟩ := ho.user hu'
    · exact named_mono ht (hw.userID hu)
    · exact named_mono ht hN
  · intro id s' hs'
    obtain ⟨s, hs, _⟩ | ⟨rfl, rfl⟩ := ho.session hs'
    · exact named_mono ht (hw.sessionID hs)
    · exact named_mono ht hN.1
  · intro id s' hs'
    obtain ⟨s, hs, hi⟩ | ⟨rfl, rfl⟩ := ho.session hs'
    · rw [refreshHash_of_identity hi]
      exact digested_mono ht (hw.refreshHash hs)
    · exact digested_mono ht hN.2
  · intro hash t' ht'
    obtain ⟨t, ht₀, _⟩ | ⟨rfl, rfl⟩ := ho.token ht'
    · exact digested_mono ht (hw.token ht₀)
    · exact digested_mono ht hN

/-- Requests other than store requests leave the store alone. -/
theorem store_handle (o : Op) (h : ∀ o', o ≠ .store o') (w : World) :
    (handle env o w).2.store = w.store ∧ (handle env o w).2.ticks = w.ticks + 1 := by
  cases o with
  | store o => exact absurd rfl (h o)
  | putState p state edition => cases p <;> exact ⟨rfl, rfl⟩
  | deleteState p state => cases p <;> exact ⟨rfl, rfl⟩
  | _ => exact ⟨rfl, rfl⟩

theorem sound_handle (hw : Sound env w) {o : Op} (ha : Allowed env w o) :
    Sound env (handle env o w).2 ∧ Onward w (handle env o w).2 := by
  by_cases h : ∃ o', o = .store o'
  · obtain ⟨o', rfl⟩ := h
    exact sound_store hw ha.1 ha.2
  · obtain ⟨hs, ht⟩ := @store_handle env o (fun o' he => h ⟨o', he⟩) w
    have hle : w.ticks ≤ (handle env o w).2.ticks := by omega
    exact ⟨sound_of_store hw hs hle, onward_of_store hs hle⟩

theorem allowed_local {o : Op} (hy : o.yields = false) (w : World) : Allowed env w o := by
  cases o with
  | store o => cases hy
  | _ => exact trivial

section Draws

variable (hf : Fresh env) (hw : Sound env w) {w' : World} (hs : w'.store = w.store)
include hf hw hs

/-- A record under a name drawn since `w` can be created while the store is the
one of `w`. -/
theorem allowed_createUser {n : Nat} (hn : w.ticks ≤ n) (hn' : n < w'.ticks) {u : User}
    (hid : u.id = env.uuid n) (hm : u.mfaEnabled = false) :
    Allowed env w' (.store (.createUser u)) := by
  have hl : w'.ledger = w.ledger := congrArg Store.ledger hs
  refine ⟨⟨?_, hm⟩, n, hn', hid⟩
  rw [hl, hid]
  cases hq : w.ledger.user (env.uuid n) with
  | none => rfl
  | some u => exact absurd (hw.userID hq) (not_named hf hn)

theorem allowed_createToken {n : Nat} (hn : w.ticks ≤ n) (hn' : n < w'.ticks) {raw : String}
    (hr : env.randomHex n = .ok raw) {t : Token} (hh : t.hash = hashToken env raw) :
    Allowed env w' (.store (.createToken t)) := by
  have hl : w'.ledger = w.ledger := congrArg Store.ledger hs
  refine ⟨?_, n, hn', raw, hr, hh⟩
  change w'.ledger.token t.hash = none
  rw [hl, hh]
  cases hq : w.ledger.token (hashToken env raw) with
  | none => rfl
  | some t => exact absurd (hw.token hq) (not_digested hf hn hr)

theorem allowed_createSession {m n : Nat} (hm : w.ticks ≤ m) (hm' : m < w'.ticks)
    (hn : w.ticks ≤ n) (hn' : n < w'.ticks) {raw : String} (hr : env.randomHex m = .ok raw)
    {s : Session} (hid : s.id = env.uuid n) (hh : s.refreshHash = hashToken env raw)
    (hrot : s.rotatedTo = "") : Allowed env w' (.store (.createSession s)) := by
  have hl : w'.ledger = w.ledger := congrArg Store.ledger hs
  refine ⟨⟨?_, hrot, fun id s' hs' he => ?_⟩, ⟨n, hn', hid⟩, m, hm', raw, hr, hh⟩
  · rw [hl, hid]
    cases hq : w.ledger.session (env.uuid n) with
    | none => rfl
    | some s => exact absurd (hw.sessionID hq) (not_named hf hn)
  · rw [hl] at hs'
    have hd := hw.refreshHash hs'
    rw [he, hh] at hd
    exact not_digested hf hm hr hd

end Draws

variable (env)

/-- The conduct of concurrent service calls: each may count on the others to
move the world onward only, and does so itself. -/
def conduct : Discipline (handle env) where
  Inv := Sound env
  Rely := Onward
  Guar := Onward
  Guard := Allowed env
  rely_refl := onward_refl
  rely_trans := onward_trans
  guar_refl := onward_refl
  guar_trans := onward_trans
  keeps_local := fun _ w hy hw => sound_handle hw (allowed_local hy w)
  keeps := fun _ _ _ hw ha => sound_handle hw ha

variable {env}

/-- The records that a call can overwrite. -/
inductive Kind where
  | user
  | session
  | token
  deriving DecidableEq

def overwrites : Op → Option Kind
  | .store (.updateUser _) => some .user
  | .store (.updateSession _) => some .session
  | .store (.markTokenUsed _) => some .token
  | _ => none

/-- A discipline that asks no more than `conduct`, except of the requests that
overwrite a special kind of record. -/
structure Admits (D : Discipline (handle env)) (Special : Kind → Prop) : Prop where
  sound : ∀ {w}, D.Inv w → Sound env w
  onward : ∀ {v w}, D.Rely v w → Onward v w
  allowed : ∀ {w} {o : Op}, D.Guard w o → Allowed env w o
  guard : ∀ {w} {o : Op}, (∀ k, overwrites o = some k → ¬ Special k) → D.Inv w →
    Allowed env w o → D.Guard w o

theorem conduct_admits : Admits (conduct env) (fun _ => False) :=
  ⟨fun hw => hw, fun hr => hr, fun ha => ha, fun _ _ ha => ha⟩

theorem admits_alone {D : Discipline (handle env)} {Special : Kind → Prop} (hA : Admits D Special) :
    Admits D.alone Special :=
  ⟨hA.sound, fun hr => hr ▸ onward_refl _, hA.allowed, hA.guard⟩

theorem admits_asking {G : World → Op → Prop} {Special : Kind → Prop}
    (hG : ∀ {w} {o : Op}, (∀ k, overwrites o = some k → ¬ Special k) → Sound env w →
      Allowed env w o → G w o) : Admits ((conduct env).asking G) Special :=
  ⟨fun hw => hw.1, fun hr => hr.1, fun ha => ha.1, fun ho hw ha => ⟨ha, hG ho hw.1 ha⟩⟩

/-- A further concern of the calls: what they keep of the ledger, how they let it
move, and what they owe the store for that. -/
structure Concern (cm : CaseMap) where
  Inv : Ledger → Prop
  Rel : Ledger → Ledger → Prop
  Guard : Ledger → StoreOp → Prop
  refl : ∀ v, Rel v v
  trans : ∀ {u v w}, Rel u v → Rel v w → Rel u w
  step : ∀ {total : Prop} {v v' : Ledger} {o : StoreOp} {r : o.Reply}, Inv v →
    Records.Guard v o → Guard v o → Step cm total v v' o r → Inv v' ∧ Rel v v'

def Concern.asks {cm : CaseMap} (c : Concern cm) (w : World) : Op → Prop
  | .store o => c.Guard w.ledger o
  | _ => True

/-- The conduct of calls that mind a concern. -/
def minding (c : Concern env.cases) : Discipline (handle env) :=
  (conduct env).extend (fun w => c.Inv w.ledger) (fun v w => c.Rel v.ledger w.ledger)
    c.asks (fun w => c.refl w.ledger) (fun huv hvw => c.trans huv hvw)
    (fun o w hy _ hI => by
      have ho : ∀ o', o ≠ .store o' := fun o' ho => by rw [ho] at hy; cases hy
      have hl : (handle env o w).2.ledger = w.ledger :=
        congrArg Store.ledger (@store_handle env o ho w).1
      rw [hl]
      exact ⟨hI, c.refl _⟩)
    (fun o w _ hw hI ha hG => by
      by_cases ho : ∃ o', o = .store o'
      · obtain ⟨o', rfl⟩ := ho
        exact c.step hI ha.1 hG (handle_store hw o' ha.1).2
      · have hl : (handle env o w).2.ledger = w.ledger :=
          congrArg Store.ledger (@store_handle env o (fun o' he => ho ⟨o', he⟩) w).1
        rw [hl]
        exact ⟨hI, c.refl _⟩)

theorem admits_minding {c : Concern env.cases} {Special : Kind → Prop}
    (hG : ∀ {v} {o : StoreOp}, (∀ k, overwrites (.store o) = some k → ¬ Special k) → c.Inv v →
      Records.Guard v o → c.Guard v o) : Admits (minding c) Special := by
  refine ⟨fun hw => hw.1, fun hr => hr.1, fun ha => ha.1, fun {w o} ho hw ha => ⟨ha, ?_⟩⟩
  cases o with
  | store o => exact hG ho hw.2 ha.1
  | _ => trivial

theorem onward_step {D : Discipline (handle env)} {Special : Kind → Prop} (hA : Admits D Special)
    (hw : D.Inv w) {o : Op} (ha : Allowed env w o) {w' : World}
    (hr : D.Rely (handle env o w).2 w') : Onward w w' :=
  onward_trans (sound_handle (hA.sound hw) ha).2 (hA.onward hr)

/-- The session is stored, up to the marks that operations set. -/
def Held (s : Session) (w : World) : Prop :=
  ∃ s', w.ledger.session s.id = some s' ∧ identity s' = identity s

theorem held_onward {s : Session} {w' : World} (hs : Held s w) (h : Onward w w') : Held s w' := by
  obtain ⟨s', hs', hi⟩ := hs
  obtain ⟨s'', hs'', hi', _⟩ := h.ledger.session hs'
  exact ⟨s'', hs'', hi'.trans hi⟩

/-- The raw token stands for a stored token of the user. -/
def Owned (env : Env) (raw id : String) (w : World) : Prop :=
  ∃ t, w.ledger.token (trimSpace (hashToken env raw)) = some t ∧ t.userID = id

theorem owned_onward {raw id : String} {w' : World} (ho : Owned env raw id w) (h : Onward w w') :
    Owned env raw id w' := by
  obtain ⟨t, ht, hid⟩ := ho
  obtain ⟨t', ht', hi, _⟩ := h.ledger.token ht
  exact ⟨t', ht', (congrArg Token.userID hi :).trans hid⟩

/-- Writing back a stored session with `revokedAt` set is allowed. -/
theorem allowed_updateSession {s s' : Session} (hs : Held s w) (hr : s'.revokedAt ≠ none)
    (hi : identity s' = identity s) : Allowed env w (.store (.updateSession s')) := by
  obtain ⟨s₀, hs₀, hi₀⟩ := hs
  refine ⟨⟨hr, s₀, ?_, hi.trans hi₀.symm⟩, trivial⟩
  rw [id_of_identity hi]
  exact hs₀

end RivicQ.Authn.Worlds
