import RivicQ.Authn.Types
import Mathlib.Logic.Function.Basic

namespace RivicQ.Authn.Records

open RivicQ.Lib.GoStrings RivicQ.Authn.Types

/-- The calls of the `Store` interface. -/
inductive StoreOp where
  | createUser (u : User)
  | updateUser (u : User)
  | getUserByID (id : String)
  | getUserByEmail (email : String)
  | listUsersByTenant (tenantID : String)
  | createSession (s : Session)
  | updateSession (s : Session)
  | getSessionByID (id : String)
  | getSessionByRefreshHash (hash : String)
  | listSessionsByUser (userID : String)
  | revokeSessionsForUser (userID : String)
  | createToken (t : Token)
  | getToken (hash : String)
  | markTokenUsed (hash : String)

abbrev StoreOp.Reply : StoreOp → Type
  | .getUserByID _ | .getUserByEmail _ => Except Err User
  | .listUsersByTenant _ => Except Err (List User)
  | .getSessionByID _ | .getSessionByRefreshHash _ => Except Err Session
  | .listSessionsByUser _ => Except Err (List Session)
  | .getToken _ => Except Err Token
  | .createUser _ | .updateUser _ | .createSession _ | .updateSession _
  | .revokeSessionsForUser _ | .createToken _ | .markTokenUsed _ => Except Err Unit

/-- What a store is for: three finite maps, users and sessions by id, tokens by
hash. -/
structure Ledger where
  user : String → Option User
  session : String → Option Session
  token : String → Option Token

def putUser (v : Ledger) (u : User) : Ledger :=
  { v with user := fun id => if id = u.id then some u else v.user id }

theorem putUser_self (v : Ledger) (u : User) : (putUser v u).user u.id = some u := if_pos rfl

theorem putUser_other {v : Ledger} {u : User} {id : String} (h : id ≠ u.id) :
    (putUser v u).user id = v.user id := if_neg h

def putSession (v : Ledger) (s : Session) : Ledger :=
  { v with session := fun id => if id = s.id then some s else v.session id }

def putToken (v : Ledger) (t : Token) : Ledger :=
  { v with token := fun hash => if hash = t.hash then some t else v.token hash }

def revoke (now : Time) (userID : String) (s : Session) : Session :=
  if s.userID = userID ∧ s.revokedAt = none then { s with revokedAt := some now } else s

def revokeAll (v : Ledger) (now : Time) (userID : String) : Ledger :=
  { v with session := fun id => (v.session id).map (revoke now userID) }

/-- The part of a session that no operation changes. -/
def identity (s : Session) : Session := { s with rotatedTo := "", revokedAt := none }

/-- The part of a token that no operation changes. -/
def issued (t : Token) : Token := { t with usedAt := none }

variable (cm : CaseMap)

/-- `v` is what a store keeps of the record `u`: a blank secret may become empty
and the email may be normalised. -/
structure Keeps (u v : User) : Prop where
  id : v.id = u.id
  name : v.name = u.name
  role : v.role = u.role
  organisation : v.organisation = u.organisation
  passwordHash : v.passwordHash = u.passwordHash
  emailVerified : v.emailVerified = u.emailVerified
  mfaEnabled : v.mfaEnabled = u.mfaEnabled
  mfaSecret : v.mfaSecret = u.mfaSecret ∨ trimSpace u.mfaSecret = "" ∧ v.mfaSecret = ""
  disabled : v.disabled = u.disabled
  email : normalizeEmail cm v.email = normalizeEmail cm u.email

/-- What an update of `old` with `u` leaves: beyond `Keeps`, fields of `u` that
repeat those of `old` stay as they are. -/
structure Updates (old u v : User) : Prop extends Keeps cm u v where
  sameTenant : u.tenantID = old.tenantID → v.tenantID = old.tenantID
  sameEmail : u.email = old.email → v.email = old.email
  sameCreation : u.createdAt = old.createdAt → v.createdAt = old.createdAt

/-- A write either reports an error and changes nothing, or has its effect. -/
def Attempt (mayFail : Prop) (v v' : Ledger) (r : Except Err Unit) (effect : Prop) : Prop :=
  (r.isOk = false ∧ v' = v ∧ mayFail) ∨ (r = .ok () ∧ effect)

/-- The effect of a store call on the ledger. A `total` store fails only where a
record is absent or an email is taken. -/
def Step (total : Prop) (v v' : Ledger) : (o : StoreOp) → o.Reply → Prop
  | .createUser u, r =>
    Attempt True v v' r (∃ u', Keeps cm u u' ∧ u'.tenantID = u.tenantID ∧ v' = putUser v u')
  | .updateUser u, r =>
    Attempt True v v' r (∃ old u', v.user u.id = some old ∧ Updates cm old u u' ∧ v' = putUser v u')
  | .getUserByID id, r => v' = v ∧ (∀ u, r = .ok u → v.user id = some u) ∧
      (total → ∀ u, v.user id = some u → r = .ok u)
  | .getUserByEmail email, r => v' = v ∧ ∀ u, r = .ok u →
      v.user u.id = some u ∧ normalizeEmail cm u.email = normalizeEmail cm email
  | .listUsersByTenant _, _ => v' = v
  | .createSession s, r => Attempt (¬ total) v v' r (v' = putSession v s)
  | .updateSession s, r => Attempt (¬ total) v v' r (v' = putSession v s)
  | .getSessionByID id, r => v' = v ∧ ∀ s, r = .ok s → v.session id = some s
  | .getSessionByRefreshHash hash, r => v' = v ∧
      (∀ s, r = .ok s → v.session s.id = some s ∧ s.refreshHash = trimSpace hash) ∧
      (total → ∀ id s, v.session id = some s → s.refreshHash = trimSpace hash → r = .ok s)
  | .listSessionsByUser _, _ => v' = v
  | .revokeSessionsForUser userID, r =>
    Attempt (¬ total) v v' r (∃ now, v' = revokeAll v now userID)
  | .createToken t, r => Attempt (¬ total) v v' r (v' = putToken v t)
  | .getToken hash, r => v' = v ∧ ∀ t, r = .ok t → v.token (trimSpace hash) = some t
  | .markTokenUsed hash, r =>
    Attempt True v v' r (∃ t now, v.token (trimSpace hash) = some t ∧
      v' = putToken v { t with usedAt := some now })

/-- Records sit under their own keys, and no two sessions share a refresh hash. -/
structure WellKeyed (v : Ledger) : Prop where
  user : ∀ {id u}, v.user id = some u → u.id = id
  session : ∀ {id s}, v.session id = some s → s.id = id
  token : ∀ {hash t}, v.token hash = some t → t.hash = hash
  refreshHash : ∀ {id id' s s'}, v.session id = some s → v.session id' = some s' →
    s.refreshHash = s'.refreshHash → id = id'

/-- How the service uses a store: what it creates is new, neither enrolled nor
rotated, and a session it writes back is a stored one, revoked. -/
def Guard (v : Ledger) : StoreOp → Prop
  | .createUser u => v.user u.id = none ∧ u.mfaEnabled = false
  | .createSession s => v.session s.id = none ∧ s.rotatedTo = "" ∧
      ∀ id s', v.session id = some s' → s'.refreshHash ≠ s.refreshHash
  | .updateSession s => s.revokedAt ≠ none ∧
      ∃ s₀, v.session s.id = some s₀ ∧ identity s = identity s₀
  | .createToken t => v.token t.hash = none
  | _ => True

/-- Sessions and tokens are never deleted or re-keyed, a revoked session stays
revoked and a used token stays used. -/
structure Evolves (v v' : Ledger) : Prop where
  session : ∀ {id s}, v.session id = some s → ∃ s', v'.session id = some s' ∧
    identity s' = identity s ∧ (s.revokedAt ≠ none → s'.revokedAt ≠ none)
  token : ∀ {hash t}, v.token hash = some t → ∃ t', v'.token hash = some t' ∧
    issued t' = issued t ∧ (t.usedAt ≠ none → t'.usedAt ≠ none)

theorem evolves_refl (v : Ledger) : Evolves v v :=
  ⟨fun hs => ⟨_, hs, rfl, id⟩, fun ht => ⟨_, ht, rfl, id⟩⟩

theorem evolves_trans {u v w : Ledger} (huv : Evolves u v) (hvw : Evolves v w) : Evolves u w := by
  constructor
  · intro id s hs
    obtain ⟨s', hs', hi, hr⟩ := huv.session hs
    obtain ⟨s'', hs'', hi', hr'⟩ := hvw.session hs'
    exact ⟨s'', hs'', hi'.trans hi, fun h => hr' (hr h)⟩
  · intro hash t ht
    obtain ⟨t', ht', hi, hu⟩ := huv.token ht
    obtain ⟨t'', ht'', hi', hu'⟩ := hvw.token ht'
    exact ⟨t'', ht'', hi'.trans hi, fun h => hu' (hu h)⟩

@[simp] theorem identity_revoke (now : Time) (userID : String) (s : Session) :
    identity (revoke now userID s) = identity s := by
  unfold revoke
  split <;> rfl

@[simp] theorem revoke_rotatedTo (now : Time) (userID : String) (s : Session) :
    (revoke now userID s).rotatedTo = s.rotatedTo := by
  unfold revoke
  split <;> rfl

theorem revoke_revokedAt (now : Time) (userID : String) (s : Session)
    (h : s.revokedAt ≠ none ∨ s.userID = userID) : (revoke now userID s).revokedAt ≠ none := by
  unfold revoke
  split
  · simp
  · rename_i hn
    intro hr
    obtain h | h := h
    · exact h hr
    · exact hn ⟨h, hr⟩

theorem id_of_identity {s s' : Session} (h : identity s = identity s') : s.id = s'.id :=
  (congrArg Session.id h :)

theorem userID_of_identity {s s' : Session} (h : identity s = identity s') : s.userID = s'.userID :=
  (congrArg Session.userID h :)

theorem refreshHash_of_identity {s s' : Session} (h : identity s = identity s') :
    s.refreshHash = s'.refreshHash := (congrArg Session.refreshHash h :)

theorem wellKeyed_putUser {v : Ledger} (hv : WellKeyed v) (u : User) : WellKeyed (putUser v u) := by
  refine ⟨?_, hv.session, hv.token, hv.refreshHash⟩
  intro id u' hu'
  simp only [putUser] at hu'
  split at hu'
  · cases hu'
    exact Eq.symm ‹_›
  · exact hv.user hu'

theorem wellKeyed_putToken {v : Ledger} (hv : WellKeyed v) (t : Token) :
    WellKeyed (putToken v t) := by
  refine ⟨hv.user, hv.session, ?_, hv.refreshHash⟩
  intro hash t' ht'
  simp only [putToken] at ht'
  split at ht'
  · cases ht'
    exact Eq.symm ‹_›
  · exact hv.token ht'

theorem wellKeyed_putSession {v : Ledger} (hv : WellKeyed v) {s : Session}
    (hs : ∀ id s', v.session id = some s' → s'.refreshHash = s.refreshHash → id = s.id) :
    WellKeyed (putSession v s) := by
  refine ⟨hv.user, ?_, hv.token, ?_⟩
  · intro id s' hs'
    simp only [putSession] at hs'
    split at hs'
    · cases hs'
      exact Eq.symm ‹_›
    · exact hv.session hs'
  · intro id id' s₁ s₂ h₁ h₂ he
    simp only [putSession] at h₁ h₂
    split at h₁ <;> split at h₂
    · simp_all
    · cases h₁
      have := hs id' s₂ h₂ he.symm
      simp_all
    · cases h₂
      have := hs id s₁ h₁ he
      simp_all
    · exact hv.refreshHash h₁ h₂ he

theorem wellKeyed_revokeAll {v : Ledger} (hv : WellKeyed v) (now : Time) (userID : String) :
    WellKeyed (revokeAll v now userID) := by
  refine ⟨hv.user, ?_, hv.token, ?_⟩
  · intro id s hs
    obtain ⟨s₀, hs₀, rfl⟩ := Option.map_eq_some_iff.mp hs
    rw [id_of_identity (identity_revoke now userID s₀)]
    exact hv.session hs₀
  · intro id id' s s' hs hs' he
    obtain ⟨s₀, hs₀, rfl⟩ := Option.map_eq_some_iff.mp hs
    obtain ⟨s₁, hs₁, rfl⟩ := Option.map_eq_some_iff.mp hs'
    rw [refreshHash_of_identity (identity_revoke now userID s₀),
      refreshHash_of_identity (identity_revoke now userID s₁)] at he
    exact hv.refreshHash hs₀ hs₁ he

theorem evolves_putUser (v : Ledger) (u : User) : Evolves v (putUser v u) :=
  ⟨(evolves_refl v).session, (evolves_refl v).token⟩

theorem evolves_putSession {v : Ledger} {s : Session}
    (hs : ∀ s₀, v.session s.id = some s₀ →
      identity s = identity s₀ ∧ (s₀.revokedAt ≠ none → s.revokedAt ≠ none)) :
    Evolves v (putSession v s) := by
  refine ⟨?_, (evolves_refl v).token⟩
  intro id s₀ hs₀
  by_cases hid : id = s.id
  · subst hid
    exact ⟨s, if_pos rfl, hs s₀ hs₀⟩
  · exact ⟨s₀, (if_neg hid).trans hs₀, rfl, fun h => h⟩

theorem evolves_putToken {v : Ledger} {t : Token}
    (ht : ∀ t₀, v.token t.hash = some t₀ →
      issued t = issued t₀ ∧ (t₀.usedAt ≠ none → t.usedAt ≠ none)) :
    Evolves v (putToken v t) := by
  refine ⟨(evolves_refl v).session, ?_⟩
  intro hash t₀ ht₀
  by_cases hh : hash = t.hash
  · subst hh
    exact ⟨t, if_pos rfl, ht t₀ ht₀⟩
  · exact ⟨t₀, (if_neg hh).trans ht₀, rfl, id⟩

theorem evolves_revokeAll (v : Ledger) (now : Time) (userID : String) :
    Evolves v (revokeAll v now userID) := by
  refine ⟨?_, (evolves_refl v).token⟩
  intro id s hs
  refine ⟨revoke now userID s, ?_, identity_revoke now userID s, fun hr =>
    revoke_revokedAt now userID s (Or.inl hr)⟩
  simp only [revokeAll, hs, Option.map_some]

variable {cm}

/-- A guarded store call keeps the ledger well keyed and only moves it forward. -/
theorem step_keeps {total : Prop} {v v' : Ledger} {o : StoreOp} {r : o.Reply} (hv : WellKeyed v)
    (hG : Guard v o) (hs : Step cm total v v' o r) : WellKeyed v' ∧ Evolves v v' := by
  have same : WellKeyed v ∧ Evolves v v := ⟨hv, evolves_refl v⟩
  cases o with
  | createUser u =>
    obtain ⟨_, rfl, _⟩ | ⟨_, u', _, _, rfl⟩ := hs
    · exact same
    · exact ⟨wellKeyed_putUser hv u', evolves_putUser v u'⟩
  | updateUser u =>
    obtain ⟨_, rfl, _⟩ | ⟨_, old, u', _, _, rfl⟩ := hs
    · exact same
    · exact ⟨wellKeyed_putUser hv u', evolves_putUser v u'⟩
  | getUserByID id => exact hs.1 ▸ same
  | getUserByEmail email => exact hs.1 ▸ same
  | listUsersByTenant tenantID => exact hs ▸ same
  | createSession s =>
    obtain ⟨_, rfl, _⟩ | ⟨_, rfl⟩ := hs
    · exact same
    · obtain ⟨hid, _, hhash⟩ := hG
      refine ⟨wellKeyed_putSession hv fun id s' hs' he => absurd he (hhash id s' hs'), ?_⟩
      exact evolves_putSession fun s₀ hs₀ => by rw [hid] at hs₀; cases hs₀
  | updateSession s =>
    obtain ⟨_, rfl, _⟩ | ⟨_, rfl⟩ := hs
    · exact same
    · obtain ⟨hr, s₀, hs₀, hi⟩ := hG
      refine ⟨wellKeyed_putSession hv fun id s' hs' he => ?_, ?_⟩
      · exact hv.refreshHash hs' hs₀ (he.trans (refreshHash_of_identity hi))
      · refine evolves_putSession fun s₁ hs₁ => ⟨?_, fun _ => hr⟩
        rw [hs₀] at hs₁
        cases hs₁
        exact hi
  | getSessionByID id => exact hs.1 ▸ same
  | getSessionByRefreshHash hash => exact hs.1 ▸ same
  | listSessionsByUser userID => exact hs ▸ same
  | revokeSessionsForUser userID =>
    obtain ⟨_, rfl, _⟩ | ⟨_, now, rfl⟩ := hs
    · exact same
    · exact ⟨wellKeyed_revokeAll hv now userID, evolves_revokeAll v now userID⟩
  | createToken t =>
    obtain ⟨_, rfl, _⟩ | ⟨_, rfl⟩ := hs
    · exact same
    · refine ⟨wellKeyed_putToken hv t, evolves_putToken fun t₀ ht₀ => ?_⟩
      rw [show v.token t.hash = none from hG] at ht₀
      cases ht₀
  | getToken hash => exact hs.1 ▸ same
  | markTokenUsed hash =>
    obtain ⟨_, rfl, _⟩ | ⟨_, t, now, ht, rfl⟩ := hs
    · exact same
    · refine ⟨wellKeyed_putToken hv _, evolves_putToken fun t₀ ht₀ => ?_⟩
      rw [show v.token t.hash = some t by rw [hv.token ht]; exact ht] at ht₀
      cases ht₀
      exact ⟨rfl, fun _ => by simp⟩

/-- What a call can do to the sessions. -/
theorem step_session {total : Prop} {v v' : Ledger} {o : StoreOp} {r : o.Reply}
    (hs : Step cm total v v' o r) : v'.session = v.session ∨
      (∃ s, (o = .createSession s ∨ o = .updateSession s) ∧
        v'.session = (putSession v s).session) ∨
      ∃ now userID, o = .revokeSessionsForUser userID ∧
        v'.session = (revokeAll v now userID).session := by
  cases o with
  | createUser u =>
    obtain ⟨_, rfl, _⟩ | ⟨_, u', _, _, rfl⟩ := hs <;> exact Or.inl rfl
  | updateUser u =>
    obtain ⟨_, rfl, _⟩ | ⟨_, old, u', _, _, rfl⟩ := hs <;> exact Or.inl rfl
  | getUserByID id => exact Or.inl (hs.1 ▸ rfl)
  | getUserByEmail email => exact Or.inl (hs.1 ▸ rfl)
  | listUsersByTenant tenantID => exact Or.inl (congrArg Ledger.session hs)
  | createSession s =>
    obtain ⟨_, rfl, _⟩ | ⟨_, rfl⟩ := hs
    · exact Or.inl rfl
    · exact Or.inr (Or.inl ⟨s, Or.inl rfl, rfl⟩)
  | updateSession s =>
    obtain ⟨_, rfl, _⟩ | ⟨_, rfl⟩ := hs
    · exact Or.inl rfl
    · exact Or.inr (Or.inl ⟨s, Or.inr rfl, rfl⟩)
  | getSessionByID id => exact Or.inl (hs.1 ▸ rfl)
  | getSessionByRefreshHash hash => exact Or.inl (hs.1 ▸ rfl)
  | listSessionsByUser userID => exact Or.inl (congrArg Ledger.session hs)
  | revokeSessionsForUser userID =>
    obtain ⟨_, rfl, _⟩ | ⟨_, now, rfl⟩ := hs
    · exact Or.inl rfl
    · exact Or.inr (Or.inr ⟨now, userID, rfl, rfl⟩)
  | createToken t => obtain ⟨_, rfl, _⟩ | ⟨_, rfl⟩ := hs <;> exact Or.inl rfl
  | getToken hash => exact Or.inl (hs.1 ▸ rfl)
  | markTokenUsed hash => obtain ⟨_, rfl, _⟩ | ⟨_, t, now, _, rfl⟩ := hs <;> exact Or.inl rfl

/-- What a call can do to the users. -/
theorem step_user {total : Prop} {v v' : Ledger} {o : StoreOp} {r : o.Reply}
    (hs : Step cm total v v' o r) : v'.user = v.user ∨
      (∃ u u', o = .createUser u ∧ Keeps cm u u' ∧ v'.user = (putUser v u').user) ∨
      ∃ u old u', o = .updateUser u ∧ v.user u.id = some old ∧ Updates cm old u u' ∧
        v'.user = (putUser v u').user := by
  cases o with
  | createUser u =>
    obtain ⟨_, rfl, _⟩ | ⟨_, u', hk, _, rfl⟩ := hs
    · exact Or.inl rfl
    · exact Or.inr (Or.inl ⟨u, u', rfl, hk, rfl⟩)
  | updateUser u =>
    obtain ⟨_, rfl, _⟩ | ⟨_, old, u', hold, hk, rfl⟩ := hs
    · exact Or.inl rfl
    · exact Or.inr (Or.inr ⟨u, old, u', rfl, hold, hk, rfl⟩)
  | getUserByID id => exact Or.inl (hs.1 ▸ rfl)
  | getUserByEmail email => exact Or.inl (hs.1 ▸ rfl)
  | listUsersByTenant tenantID => exact Or.inl (congrArg Ledger.user hs)
  | createSession s => obtain ⟨_, rfl, _⟩ | ⟨_, rfl⟩ := hs <;> exact Or.inl rfl
  | updateSession s => obtain ⟨_, rfl, _⟩ | ⟨_, rfl⟩ := hs <;> exact Or.inl rfl
  | getSessionByID id => exact Or.inl (hs.1 ▸ rfl)
  | getSessionByRefreshHash hash => exact Or.inl (hs.1 ▸ rfl)
  | listSessionsByUser userID => exact Or.inl (congrArg Ledger.user hs)
  | revokeSessionsForUser userID => obtain ⟨_, rfl, _⟩ | ⟨_, now, rfl⟩ := hs <;> exact Or.inl rfl
  | createToken t => obtain ⟨_, rfl, _⟩ | ⟨_, rfl⟩ := hs <;> exact Or.inl rfl
  | getToken hash => exact Or.inl (hs.1 ▸ rfl)
  | markTokenUsed hash => obtain ⟨_, rfl, _⟩ | ⟨_, t, now, _, rfl⟩ := hs <;> exact Or.inl rfl

/-- A rotated session is revoked. -/
def Retired (v : Ledger) : Prop :=
  ∀ id s, v.session id = some s → s.rotatedTo ≠ "" → s.revokedAt ≠ none

theorem retired_putSession {v : Ledger} {s : Session} (hv : Retired v)
    (hs : s.rotatedTo ≠ "" → s.revokedAt ≠ none) : Retired (putSession v s) := by
  intro id s' hs'
  simp only [putSession] at hs'
  split at hs'
  · cases hs'
    exact hs
  · exact hv id s' hs'

theorem retired_revokeAll {v : Ledger} (hv : Retired v) (now : Time) (userID : String) :
    Retired (revokeAll v now userID) := by
  intro id s hs
  obtain ⟨s₀, hs₀, rfl⟩ := Option.map_eq_some_iff.mp hs
  intro hr
  rw [revoke_rotatedTo] at hr
  exact revoke_revokedAt now userID s₀ (Or.inl (hv id s₀ hs₀ hr))

theorem step_retired {total : Prop} {v v' : Ledger} {o : StoreOp} {r : o.Reply} (hv : Retired v)
    (hG : Guard v o) (hs : Step cm total v v' o r) : Retired v' := by
  intro id s h
  obtain he | ⟨s', ho, he⟩ | ⟨now, userID, _, he⟩ := step_session hs <;> rw [he] at h
  · exact hv id s h
  · refine retired_putSession hv (fun hr => ?_) id s h
    obtain rfl | rfl := ho
    · exact absurd hG.2.1 hr
    · exact hG.1
  · exact retired_revokeAll hv now userID id s h

/-- Where the records of a ledger come from when a call turns `v` into `v'`. -/
structure Origins (v v' : Ledger) (o : StoreOp) : Prop where
  user : ∀ {id u'}, v'.user id = some u' →
    (∃ u, v.user id = some u) ∨ ∃ u, o = .createUser u ∧ u.id = id
  session : ∀ {id s'}, v'.session id = some s' →
    (∃ s, v.session id = some s ∧ identity s' = identity s) ∨ o = .createSession s' ∧ s'.id = id
  token : ∀ {hash t'}, v'.token hash = some t' →
    (∃ t, v.token hash = some t ∧ issued t' = issued t) ∨ o = .createToken t' ∧ t'.hash = hash

theorem origins_refl (v : Ledger) (o : StoreOp) : Origins v v o :=
  ⟨fun hu => Or.inl ⟨_, hu⟩, fun hs => Or.inl ⟨_, hs, rfl⟩, fun ht => Or.inl ⟨_, ht, rfl⟩⟩

theorem origins_putUser {v : Ledger} {u : User} {o : StoreOp}
    (hu : (∃ u₀, v.user u.id = some u₀) ∨ ∃ u₀, o = .createUser u₀ ∧ u₀.id = u.id) :
    Origins v (putUser v u) o := by
  refine ⟨?_, (origins_refl v o).session, (origins_refl v o).token⟩
  intro id u' hu'
  simp only [putUser] at hu'
  split at hu'
  · rename_i hid
    rw [hid]
    exact hu
  · exact Or.inl ⟨u', hu'⟩

theorem origins_putSession {v : Ledger} {s : Session} {o : StoreOp}
    (hs : (∃ s₀, v.session s.id = some s₀ ∧ identity s = identity s₀) ∨ o = .createSession s) :
    Origins v (putSession v s) o := by
  refine ⟨(origins_refl v o).user, ?_, (origins_refl v o).token⟩
  intro id s' hs'
  simp only [putSession] at hs'
  split at hs'
  · rename_i hid
    cases hs'
    rw [hid]
    exact hs.imp_right fun ho => ⟨ho, rfl⟩
  · exact Or.inl ⟨s', hs', rfl⟩

theorem origins_putToken {v : Ledger} {t : Token} {o : StoreOp}
    (ht : (∃ t₀, v.token t.hash = some t₀ ∧ issued t = issued t₀) ∨ o = .createToken t) :
    Origins v (putToken v t) o := by
  refine ⟨(origins_refl v o).user, (origins_refl v o).session, ?_⟩
  intro hash t' ht'
  simp only [putToken] at ht'
  split at ht'
  · rename_i hhash
    cases ht'
    rw [hhash]
    exact ht.imp_right fun ho => ⟨ho, rfl⟩
  · exact Or.inl ⟨t', ht', rfl⟩

theorem origins_revokeAll (v : Ledger) (now : Time) (userID : String) (o : StoreOp) :
    Origins v (revokeAll v now userID) o := by
  refine ⟨(origins_refl v o).user, ?_, (origins_refl v o).token⟩
  intro id s' hs'
  obtain ⟨s, hs, rfl⟩ := Option.map_eq_some_iff.mp hs'
  exact Or.inl ⟨s, hs, identity_revoke now userID s⟩

theorem step_origins {total : Prop} {v v' : Ledger} {o : StoreOp} {r : o.Reply} (hv : WellKeyed v)
    (hG : Guard v o) (hs : Step cm total v v' o r) : Origins v v' o := by
  have same := origins_refl v o
  cases o with
  | createUser u =>
    obtain ⟨_, rfl, _⟩ | ⟨_, u', hk, _, rfl⟩ := hs
    · exact same
    · exact origins_putUser (Or.inr ⟨u, rfl, hk.id.symm⟩)
  | updateUser u =>
    obtain ⟨_, rfl, _⟩ | ⟨_, old, u', hold, hk, rfl⟩ := hs
    · exact same
    · exact origins_putUser (Or.inl ⟨old, by rw [hk.id]; exact hold⟩)
  | getUserByID id => exact hs.1 ▸ same
  | getUserByEmail email => exact hs.1 ▸ same
  | listUsersByTenant tenantID => exact hs ▸ same
  | createSession s =>
    obtain ⟨_, rfl, _⟩ | ⟨_, rfl⟩ := hs
    · exact same
    · exact origins_putSession (Or.inr rfl)
  | updateSession s =>
    obtain ⟨_, rfl, _⟩ | ⟨_, rfl⟩ := hs
    · exact same
    · exact origins_putSession (Or.inl hG.2)
  | getSessionByID id => exact hs.1 ▸ same
  | getSessionByRefreshHash hash => exact hs.1 ▸ same
  | listSessionsByUser userID => exact hs ▸ same
  | revokeSessionsForUser userID =>
    obtain ⟨_, rfl, _⟩ | ⟨_, now, rfl⟩ := hs
    · exact same
    · exact origins_revokeAll v now userID _
  | createToken t =>
    obtain ⟨_, rfl, _⟩ | ⟨_, rfl⟩ := hs
    · exact same
    · exact origins_putToken (Or.inr rfl)
  | getToken hash => exact hs.1 ▸ same
  | markTokenUsed hash =>
    obtain ⟨_, rfl, _⟩ | ⟨_, t, now, ht, rfl⟩ := hs
    · exact same
    · refine origins_putToken (Or.inl ⟨t, ?_, rfl⟩)
      change v.token t.hash = some t
      rw [hv.token ht]
      exact ht

end RivicQ.Authn.Records
