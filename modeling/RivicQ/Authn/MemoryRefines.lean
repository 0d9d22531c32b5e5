import RivicQ.Authn.Records
import RivicQ.Lib.Tables

namespace RivicQ.Authn.Memory

open RivicQ.Lib.GoStrings RivicQ.Lib.Tables RivicQ.Authn.Types RivicQ.Authn.Records

/-- The in-memory store. Both session maps hold references to shared session
objects, which `revokeSessionsForUser` writes in place; user and token records
are replaced whole. -/
structure MemStore where
  usersByID : Table User
  usersByEmail : Table User
  objects : List Session
  sessions : Table Nat
  sessionsByHash : Table Nat
  tokens : Table Token

def empty : MemStore := ⟨∅, ∅, [], ∅, ∅, ∅⟩

variable (cm : CaseMap)

def createUser (created updated : Time) (u : User) (m : MemStore) : Except Err Unit × MemStore :=
  let key := normalizeEmail cm u.email
  match m.usersByEmail.lookup key with
  | some _ => (.error .emailTaken, m)
  | none =>
    let stored := { u with
      createdAt := if u.createdAt = 0 then created else u.createdAt
      updatedAt := updated }
    (.ok (), { m with
      usersByID := m.usersByID.insert stored.id stored
      usersByEmail := m.usersByEmail.insert key stored })

def updateUser (now : Time) (u : User) (m : MemStore) : Except Err Unit × MemStore :=
  match m.usersByID.lookup u.id with
  | none => (.error .userNotFound, m)
  | some existing =>
    let stored := { u with
      updatedAt := now
      createdAt := if u.createdAt = 0 then existing.createdAt else u.createdAt }
    let oldKey := normalizeEmail cm existing.email
    let byEmail :=
      if oldKey ≠ normalizeEmail cm u.email then m.usersByEmail.erase oldKey else m.usersByEmail
    (.ok (), { m with
      usersByID := m.usersByID.insert stored.id stored
      usersByEmail := byEmail.insert (normalizeEmail cm stored.email) stored })

def getUserByID (id : String) (m : MemStore) : Except Err User :=
  match m.usersByID.lookup id with
  | none => .error .userNotFound
  | some u => .ok u

def getUserByEmail (email : String) (m : MemStore) : Except Err User :=
  match m.usersByEmail.lookup (normalizeEmail cm email) with
  | none => .error .userNotFound
  | some u => .ok u

def listUsersByTenant (tenantID : String) (m : MemStore) : Except Err (List User) :=
  .ok ((m.usersByID.values.filter (fun u => tenantID = "" || u.tenantID = tenantID)).mergeSort
    (fun u v => !(decide (v.email < u.email))))

/-- Store a new object for the session and point both maps at it. -/
def storeSession (s : Session) (m : MemStore) : MemStore :=
  { m with
    objects := m.objects ++ [s]
    sessions := m.sessions.insert s.id m.objects.length
    sessionsByHash := m.sessionsByHash.insert s.refreshHash m.objects.length }

def createSession (s : Session) (m : MemStore) : Except Err Unit × MemStore :=
  (.ok (), storeSession s m)

def updateSession (s : Session) (m : MemStore) : Except Err Unit × MemStore :=
  (.ok (), storeSession s m)

/-- The session object a map entry points to. -/
def deref (m : MemStore) (ref : Option Nat) : Option Session := ref.bind (fun r => m.objects[r]?)

def getSessionByID (id : String) (m : MemStore) : Except Err Session :=
  match deref m (m.sessions.lookup id) with
  | none => .error .invalidToken
  | some s => .ok s

def getSessionByRefreshHash (hash : String) (m : MemStore) : Except Err Session :=
  match deref m (m.sessionsByHash.lookup (trimSpace hash)) with
  | none => .error .invalidToken
  | some s => .ok s

def listSessionsByUser (userID : String) (m : MemStore) : Except Err (List Session) :=
  .ok (((m.sessions.values.filterMap (fun r => m.objects[r]?)).filter
    (fun s => s.userID = userID)).mergeSort (fun s t => t.createdAt ≤ s.createdAt))

def revokeSessionsForUser (now : Time) (userID : String) (m : MemStore) :
    Except Err Unit × MemStore :=
  (.ok (), { m with objects := visit (revoke now userID) m.sessions.values m.objects })

def createToken (t : Token) (m : MemStore) : Except Err Unit × MemStore :=
  (.ok (), { m with tokens := m.tokens.insert t.hash t })

def getToken (hash : String) (m : MemStore) : Except Err Token :=
  match m.tokens.lookup (trimSpace hash) with
  | none => .error .invalidToken
  | some t => .ok t

def markTokenUsed (now : Time) (hash : String) (m : MemStore) : Except Err Unit × MemStore :=
  match m.tokens.lookup (trimSpace hash) with
  | none => (.error .invalidToken, m)
  | some t =>
    (.ok (), { m with tokens := m.tokens.insert (trimSpace hash) { t with usedAt := some now } })

/-- Serve one call of the interface; the store reads its own clock twice at
most. -/
def exec (t₀ t₁ : Time) : (o : StoreOp) → MemStore → o.Reply × MemStore
  | .createUser u, m => createUser cm t₀ t₁ u m
  | .updateUser u, m => updateUser cm t₀ u m
  | .getUserByID id, m => (getUserByID id m, m)
  | .getUserByEmail email, m => (getUserByEmail cm email m, m)
  | .listUsersByTenant tenantID, m => (listUsersByTenant tenantID m, m)
  | .createSession s, m => createSession s m
  | .updateSession s, m => updateSession s m
  | .getSessionByID id, m => (getSessionByID id m, m)
  | .getSessionByRefreshHash hash, m => (getSessionByRefreshHash hash m, m)
  | .listSessionsByUser userID, m => (listSessionsByUser userID m, m)
  | .revokeSessionsForUser userID, m => revokeSessionsForUser t₀ userID m
  | .createToken t, m => createToken t m
  | .getToken hash, m => (getToken hash m, m)
  | .markTokenUsed hash, m => markTokenUsed t₀ hash m

end RivicQ.Authn.Memory

namespace RivicQ.Authn.MemoryRefines

open RivicQ.Lib.GoStrings RivicQ.Lib.Tables RivicQ.Authn.Types RivicQ.Authn.Records
open RivicQ.Authn.Memory

/-- The ledger an in-memory store stands for. -/
def ledger (m : MemStore) : Ledger where
  user := fun id => m.usersByID.lookup id
  session := fun id => deref m (m.sessions.lookup id)
  token := fun hash => m.tokens.lookup hash

/-- The two user maps agree as far as the email map goes, and the two session
maps lead to the same objects. -/
structure Coherent (cm : CaseMap) (m : MemStore) : Prop where
  byEmail : ∀ {k u}, m.usersByEmail.lookup k = some u →
    m.usersByID.lookup u.id = some u ∧ normalizeEmail cm u.email = k
  byID : ∀ {id r}, m.sessions.lookup id = some r → ∃ s, m.objects[r]? = some s ∧ s.id = id ∧
    m.sessionsByHash.lookup s.refreshHash = some r
  byHash : ∀ {h r}, m.sessionsByHash.lookup h = some r → ∃ s, m.objects[r]? = some s ∧
    s.refreshHash = h ∧ m.sessions.lookup s.id = some r

variable {cm : CaseMap} {m : MemStore}

theorem coherent_empty : Coherent cm Memory.empty := by
  constructor <;> intro k r h <;> simp [Memory.empty] at h

theorem session_of_lookup {id : String} {r : Nat} {s : Session}
    (hr : m.sessions.lookup id = some r) (hs : m.objects[r]? = some s) :
    (ledger m).session id = some s := by
  simp only [ledger, deref, hr, Option.bind_some, hs]

theorem lookup_of_session {id : String} {s : Session} (hs : (ledger m).session id = some s) :
    ∃ r, m.sessions.lookup id = some r ∧ m.objects[r]? = some s := by
  simpa only [ledger, deref, Option.bind_eq_some_iff] using hs

theorem ledger_storeSession (hm : Coherent cm m) (s : Session) :
    ledger (storeSession s m) = putSession (ledger m) s := by
  have hsession : (ledger (storeSession s m)).session = (putSession (ledger m) s).session := by
    funext id
    simp only [ledger, storeSession, putSession, lookup_insert_if]
    by_cases hid : id = s.id
    · simp [deref, hid]
    · simp only [if_neg hid, deref]
      cases hr : m.sessions.lookup id with
      | none => rfl
      | some r =>
        obtain ⟨s', hs', _⟩ := hm.byID hr
        have hlt : r < m.objects.length := (List.getElem?_eq_some_iff.mp hs').1
        simp only [Option.bind_some, List.getElem?_append_left hlt]
  exact congrArg (fun f => Ledger.mk (ledger m).user f (ledger m).token) hsession

theorem coherent_storeSession (hm : Coherent cm m) {s : Session}
    (hhash : ∀ id s', (ledger m).session id = some s' → s'.refreshHash = s.refreshHash → id = s.id)
    (hid : ∀ s', (ledger m).session s.id = some s' → s'.refreshHash = s.refreshHash) :
    Coherent cm (storeSession s m) := by
  have hnew : (m.objects ++ [s])[m.objects.length]? = some s := by simp
  refine ⟨hm.byEmail, ?_, ?_⟩
  · intro id r hr
    simp only [storeSession, lookup_insert_if] at hr ⊢
    by_cases he : id = s.id
    · rw [if_pos he] at hr
      cases hr
      exact ⟨s, hnew, he.symm, if_pos rfl⟩
    · rw [if_neg he] at hr
      obtain ⟨s', hs', hid', hh'⟩ := hm.byID hr
      have hlt : r < m.objects.length := (List.getElem?_eq_some_iff.mp hs').1
      refine ⟨s', by rw [List.getElem?_append_left hlt, hs'], hid', ?_⟩
      rw [if_neg fun heq => he (hhash id s' (session_of_lookup hr hs') heq), hh']
  · intro h r hr
    simp only [storeSession, lookup_insert_if] at hr ⊢
    by_cases he : h = s.refreshHash
    · rw [if_pos he] at hr
      cases hr
      exact ⟨s, hnew, he.symm, if_pos rfl⟩
    · rw [if_neg he] at hr
      obtain ⟨s', hs', hh', hid'⟩ := hm.byHash hr
      have hlt : r < m.objects.length := (List.getElem?_eq_some_iff.mp hs').1
      refine ⟨s', by rw [List.getElem?_append_left hlt, hs'], hh', ?_⟩
      rw [if_neg fun heq => ?_, hid']
      have hs'' := session_of_lookup hid' hs'
      rw [heq] at hs''
      exact he (hh'.symm.trans (hid s' hs''))

theorem revoke_revoke (now : Time) (userID : String) (s : Session) :
    revoke now userID (revoke now userID s) = revoke now userID s := by
  unfold revoke
  split <;> simp_all

theorem objects_revoke (now : Time) (userID : String) {id : String} {r : Nat}
    (hr : m.sessions.lookup id = some r) :
    (visit (revoke now userID) m.sessions.values m.objects)[r]? =
      (m.objects[r]?).map (revoke now userID) := by
  have hm : r ∈ m.sessions.values := (mem_values _ _).mpr ⟨id, hr⟩
  rw [getElem?_visit _ (revoke_revoke now userID), if_pos hm]

theorem ledger_revoke (now : Time) (userID : String) :
    ledger (revokeSessionsForUser now userID m).2 = revokeAll (ledger m) now userID := by
  have hsession : (ledger (revokeSessionsForUser now userID m).2).session =
      (revokeAll (ledger m) now userID).session := by
    funext id
    simp only [ledger, revokeSessionsForUser, revokeAll, deref]
    cases hr : m.sessions.lookup id with
    | none => rfl
    | some r => simp only [Option.bind_some, objects_revoke now userID hr]
  exact congrArg (fun f => Ledger.mk (ledger m).user f (ledger m).token) hsession

theorem coherent_revoke (hm : Coherent cm m) (now : Time) (userID : String) :
    Coherent cm (revokeSessionsForUser now userID m).2 := by
  refine ⟨hm.byEmail, ?_, ?_⟩
  · intro id r hr
    change m.sessions.lookup id = some r at hr
    obtain ⟨s, hs, hid, hh⟩ := hm.byID hr
    have hi := identity_revoke now userID s
    refine ⟨revoke now userID s, ?_, (id_of_identity hi).trans hid, ?_⟩
    · exact (objects_revoke now userID hr).trans (by rw [hs, Option.map_some])
    · rw [refreshHash_of_identity hi]
      exact hh
  · intro h r hr
    change m.sessionsByHash.lookup h = some r at hr
    obtain ⟨s, hs, hh, hid⟩ := hm.byHash hr
    have hi := identity_revoke now userID s
    refine ⟨revoke now userID s, ?_, (refreshHash_of_identity hi).trans hh, ?_⟩
    · exact (objects_revoke now userID hid).trans (by rw [hs, Option.map_some])
    · rw [id_of_identity hi]
      exact hid

theorem coherent_createUser (hm : Coherent cm m) {u : User} (hid : m.usersByID.lookup u.id = none)
    (created updated : Time) : Coherent cm (createUser cm created updated u m).2 := by
  unfold createUser
  dsimp only
  split
  · exact hm
  · refine ⟨?_, hm.byID, hm.byHash⟩
    intro k u' hk
    simp only [lookup_insert_if] at hk ⊢
    by_cases he : k = normalizeEmail cm u.email
    · rw [if_pos he] at hk
      cases hk
      exact ⟨if_pos rfl, he.symm⟩
    · rw [if_neg he] at hk
      obtain ⟨hu', hk'⟩ := hm.byEmail hk
      refine ⟨?_, hk'⟩
      rw [if_neg fun heq => ?_, hu']
      rw [heq, hid] at hu'
      cases hu'

theorem coherent_updateUser (hm : Coherent cm m) (u : User) (now : Time) :
    Coherent cm (updateUser cm now u m).2 := by
  unfold updateUser
  split
  · exact hm
  · rename_i existing hold
    refine ⟨?_, hm.byID, hm.byHash⟩
    intro k u' hk
    simp only [lookup_insert_if] at hk ⊢
    by_cases he : k = normalizeEmail cm u.email
    · rw [if_pos he] at hk
      cases hk
      exact ⟨if_pos rfl, he.symm⟩
    · rw [if_neg he] at hk
      -- a surviving entry of the email map belongs to another user
      have hk' : m.usersByEmail.lookup k = some u' ∧ k ≠ normalizeEmail cm existing.email := by
        split at hk
        · rw [lookup_erase_if] at hk
          split at hk
          · cases hk
          · exact ⟨hk, ‹_›⟩
        · rename_i hsame
          exact ⟨hk, fun heq => he (heq.trans (not_not.mp hsame))⟩
      obtain ⟨hu', hkey⟩ := hm.byEmail hk'.1
      refine ⟨?_, hkey⟩
      rw [if_neg fun heq => ?_, hu']
      rw [heq, hold] at hu'
      cases hu'
      exact hk'.2 hkey.symm

theorem keeps_stamped (cm : CaseMap) (u : User) (created updated : Time) :
    Keeps cm u { u with createdAt := created, updatedAt := updated } :=
  ⟨rfl, rfl, rfl, rfl, rfl, rfl, rfl, Or.inl rfl, rfl, rfl⟩

theorem ledger_putUser (u : User) (emails : Table User) :
    ledger { m with usersByID := (m.usersByID.insert u.id u), usersByEmail := emails } =
      putUser (ledger m) u := by
  have huser : (fun id => (m.usersByID.insert u.id u).lookup id) = (putUser (ledger m) u).user := by
    funext id
    exact lookup_insert_if _ _ _ _
  exact congrArg (fun f => Ledger.mk f (ledger m).session (ledger m).token) huser

theorem step_createUser (u : User) (created updated : Time) :
    Step cm True (ledger m) (ledger (createUser cm created updated u m).2) (.createUser u)
      (createUser cm created updated u m).1 := by
  unfold createUser
  dsimp only
  split
  · exact Or.inl ⟨rfl, rfl, trivial⟩
  · let stored := { u with
      createdAt := if u.createdAt = 0 then created else u.createdAt
      updatedAt := updated }
    exact Or.inr ⟨rfl, stored, keeps_stamped cm u _ _, rfl, ledger_putUser stored _⟩

theorem step_updateUser (u : User) (now : Time) :
    Step cm True (ledger m) (ledger (updateUser cm now u m).2) (.updateUser u)
      (updateUser cm now u m).1 := by
  unfold updateUser
  split
  · exact Or.inl ⟨rfl, rfl, trivial⟩
  · rename_i existing hold
    let stored := { u with
      updatedAt := now
      createdAt := if u.createdAt = 0 then existing.createdAt else u.createdAt }
    refine Or.inr ⟨rfl, existing, stored, hold, ⟨keeps_stamped cm u _ _, id, id, fun hc => ?_⟩,
      ledger_putUser stored _⟩
    change (if u.createdAt = 0 then existing.createdAt else u.createdAt) = existing.createdAt
    rw [hc, ite_self]

theorem step_getSessionByRefreshHash (hm : Coherent cm m) (hash : String) :
    Step cm True (ledger m) (ledger m) (.getSessionByRefreshHash hash)
      (getSessionByRefreshHash hash m) := by
  refine ⟨rfl, fun s hs => ?_, fun _ id s hs hh => ?_⟩
  · unfold getSessionByRefreshHash at hs
    split at hs
    · cases hs
    · rename_i s' hd
      cases hs
      obtain ⟨r, hr, hobj⟩ := Option.bind_eq_some_iff.mp hd
      obtain ⟨s', hs', hh, hid⟩ := hm.byHash hr
      rw [hobj] at hs'
      cases hs'
      exact ⟨session_of_lookup hid hobj, hh⟩
  · obtain ⟨r, hr, hobj⟩ := lookup_of_session hs
    obtain ⟨s', hs', _, hlook⟩ := hm.byID hr
    rw [hobj] at hs'
    cases hs'
    have hd : deref m (m.sessionsByHash.lookup (trimSpace hash)) = some s := by
      rw [← hh, hlook]
      exact hobj
    simp only [getSessionByRefreshHash, hd]

theorem step_markTokenUsed (hv : WellKeyed (ledger m)) (hash : String) (now : Time) :
    Step cm True (ledger m) (ledger (markTokenUsed now hash m).2) (.markTokenUsed hash)
      (markTokenUsed now hash m).1 := by
  unfold markTokenUsed
  split
  · exact Or.inl ⟨rfl, rfl, trivial⟩
  · rename_i t ht
    refine Or.inr ⟨rfl, t, now, ht, ?_⟩
    have hkey : t.hash = trimSpace hash := hv.token ht
    have htoken : (fun k => (m.tokens.insert (trimSpace hash) { t with usedAt := some now }).lookup k)
        = (putToken (ledger m) { t with usedAt := some now }).token := by
      funext k
      simp only [putToken, hkey]
      exact lookup_insert_if _ _ _ _
    exact congrArg (fun f => Ledger.mk (ledger m).user (ledger m).session f) htoken

theorem ledger_createToken (t : Token) : ledger (createToken t m).2 = putToken (ledger m) t := by
  have htoken : (fun k => (m.tokens.insert t.hash t).lookup k) = (putToken (ledger m) t).token := by
    funext k
    exact lookup_insert_if _ _ _ _
  exact congrArg (fun f => Ledger.mk (ledger m).user (ledger m).session f) htoken

/-- The in-memory store refines the ledger: every guarded call keeps the maps
coherent and has on the ledger the effect the interface promises. -/
theorem exec_step (hm : Coherent cm m) (hv : WellKeyed (ledger m)) (t₀ t₁ : Time) {o : StoreOp}
    (hG : Guard (ledger m) o) :
    Coherent cm (exec cm t₀ t₁ o m).2 ∧
      Step cm True (ledger m) (ledger (exec cm t₀ t₁ o m).2) o (exec cm t₀ t₁ o m).1 := by
  cases o with
  | createUser u => exact ⟨coherent_createUser hm hG.1 t₀ t₁, step_createUser u t₀ t₁⟩
  | updateUser u => exact ⟨coherent_updateUser hm u t₀, step_updateUser u t₀⟩
  | getUserByID id =>
    refine ⟨hm, rfl, fun u hu => ?_, fun _ u hu => ?_⟩
    · simp only [exec, getUserByID] at hu
      split at hu
      · cases hu
      · cases hu
        assumption
    · change m.usersByID.lookup id = some u at hu
      simp only [exec, getUserByID, hu]
  | getUserByEmail email =>
    refine ⟨hm, rfl, fun u hu => ?_⟩
    simp only [exec, getUserByEmail] at hu
    split at hu
    · cases hu
    · cases hu
      exact hm.byEmail ‹_›
  | listUsersByTenant tenantID => exact ⟨hm, rfl⟩
  | createSession s =>
    obtain ⟨hid, _, hhash⟩ := hG
    refine ⟨coherent_storeSession hm (fun id s' hs' he => absurd he (hhash id s' hs')) ?_,
      Or.inr ⟨rfl, ledger_storeSession hm s⟩⟩
    intro s' hs'
    rw [hid] at hs'
    cases hs'
  | updateSession s =>
    obtain ⟨_, s₀, hs₀, hi⟩ := hG
    refine ⟨coherent_storeSession hm (fun id s' hs' he => ?_) (fun s' hs' => ?_),
      Or.inr ⟨rfl, ledger_storeSession hm s⟩⟩
    · exact hv.refreshHash hs' hs₀ (he.trans (refreshHash_of_identity hi))
    · rw [hs₀] at hs'
      cases hs'
      exact (refreshHash_of_identity hi).symm
  | getSessionByID id =>
    refine ⟨hm, rfl, fun s hs => ?_⟩
    simp only [exec, getSessionByID] at hs
    split at hs
    · cases hs
    · cases hs
      assumption
  | getSessionByRefreshHash hash => exact ⟨hm, step_getSessionByRefreshHash hm hash⟩
  | listSessionsByUser userID => exact ⟨hm, rfl⟩
  | revokeSessionsForUser userID =>
    exact ⟨coherent_revoke hm t₀ userID, Or.inr ⟨rfl, t₀, ledger_revoke t₀ userID⟩⟩
  | createToken t => exact ⟨⟨hm.byEmail, hm.byID, hm.byHash⟩, Or.inr ⟨rfl, ledger_createToken t⟩⟩
  | getToken hash =>
    refine ⟨hm, rfl, fun t ht => ?_⟩
    simp only [exec, getToken] at ht
    split at ht
    · cases ht
    · cases ht
      assumption
  | markTokenUsed hash =>
    refine ⟨?_, step_markTokenUsed hv hash t₀⟩
    simp only [exec, markTokenUsed]
    split
    · exact hm
    · exact ⟨hm.byEmail, hm.byID, hm.byHash⟩

end RivicQ.Authn.MemoryRefines
