import RivicQ.Authn.MemoryRefines
import RivicQ.Authn.Postgres

namespace RivicQ.Authn.PostgresRefines

open RivicQ.Lib.GoStrings RivicQ.Lib.Tables RivicQ.Authn.Types RivicQ.Authn.Records
open RivicQ.Authn.Postgres

/-- The ledger the tables stand for. -/
def ledger (db : SQLStore) : Ledger where
  user := fun id => (rowWith UserRow.id id db.users).map scanUser
  session := fun id => rowWith Session.id id db.sessions
  token := fun hash => rowWith Token.hash hash db.tokens

/-- The keys the migrations declare, and emails stored in normal form. -/
structure Keyed (cm : CaseMap) (db : SQLStore) : Prop where
  userID : (db.users.map UserRow.id).Nodup
  email : ∀ r ∈ db.users, normalizeEmail cm r.email = r.email
  sessionID : (db.sessions.map Session.id).Nodup
  refreshHash : (db.sessions.map Session.refreshHash).Nodup
  tokenHash : (db.tokens.map Token.hash).Nodup

variable {cm : CaseMap} {db : SQLStore}

theorem keyed_empty : Keyed cm Postgres.empty := by
  constructor <;> simp [Postgres.empty]

theorem any_key_false {R : Type} {key : R → String} {k : String} {rows : List R}
    (h : rows.any (fun r => key r = k) = false) : ∀ r ∈ rows, key r ≠ k := by
  simpa using h

theorem nullIfEmpty_getD (s : String) :
    (nullIfEmpty s).getD "" = s ∨ trimSpace s = "" ∧ (nullIfEmpty s).getD "" = "" := by
  unfold nullIfEmpty
  split
  · exact Or.inr ⟨‹_›, rfl⟩
  · exact Or.inl rfl

theorem rowWith_put {R : Type} {key : R → String} {rows : List R} {r : R}
    (hr : ∀ q ∈ rows, key q ≠ key r) (k : String) :
    rowWith key k (rows ++ [r]) = if k = key r then some r else rowWith key k rows := by
  rw [rowWith_append]
  by_cases hk : k = key r
  · subst hk
    rw [rowWith_none.mpr hr, if_pos rfl, Option.none_or]
  · rw [if_neg (Ne.symm hk), if_neg hk, Option.or_none]

theorem rowWith_set {R : Type} {key : R → String} (f : R → R) (hf : ∀ r, key (f r) = key r)
    {rows : List R} {k₀ : String} {r₀ : R} (h₀ : rowWith key k₀ rows = some r₀) (k : String) :
    rowWith key k (updateWhere (fun r => key r = k₀) f rows) =
      if k = k₀ then some (f r₀) else rowWith key k rows := by
  rw [rowWith_updateWhere _ f hf]
  by_cases hk : k = k₀
  · subst hk
    simp only [h₀, Option.map_some, (rowWith_some h₀).2, decide_true, if_true]
  · rw [if_neg hk]
    cases hr : rowWith key k rows with
    | none => rfl
    | some r =>
      have hne : key r ≠ k₀ := fun h => hk ((rowWith_some hr).2.symm.trans h)
      simp only [Option.map_some, hne, decide_false, Bool.false_eq_true, if_false]

theorem map_scanUser_if {p : Prop} [Decidable p] (r : UserRow) (o : Option UserRow) :
    (if p then some r else o).map scanUser = if p then some (scanUser r) else o.map scanUser := by
  split <;> rfl

theorem ledger_putUser {rows : List UserRow} {u : User}
    (hu : ∀ id, (rowWith UserRow.id id rows).map scanUser =
      if id = u.id then some u else (ledger db).user id) :
    ledger { db with users := rows } = putUser (ledger db) u :=
  congrArg (fun f => Ledger.mk f (ledger db).session (ledger db).token) (funext hu)

theorem ledger_putSession {rows : List Session} {s : Session}
    (hs : ∀ id, rowWith Session.id id rows = if id = s.id then some s else (ledger db).session id) :
    ledger { db with sessions := rows } = putSession (ledger db) s :=
  congrArg (fun f => Ledger.mk (ledger db).user f (ledger db).token) (funext hs)

theorem ledger_putToken {rows : List Token} {t : Token}
    (ht : ∀ hash, rowWith Token.hash hash rows =
      if hash = t.hash then some t else (ledger db).token hash) :
    ledger { db with tokens := rows } = putToken (ledger db) t :=
  congrArg (fun f => Ledger.mk (ledger db).user (ledger db).session f) (funext ht)

/-- The record a written row reads back as. -/
theorem keeps_row {u : User} {r : UserRow} (hid : r.id = u.id) (now : Time) :
    Keeps cm u (scanUser (setUser cm now u r)) :=
  ⟨by simpa only [scanUser, setUser] using hid, rfl, rfl, rfl, rfl, rfl, rfl, nullIfEmpty_getD u.mfaSecret, rfl,
    normalizeEmail_normalizeEmail cm u.email⟩

theorem exec_createUser (hk : Keyed cm db) (now : Time) (u : User) :
    Keyed cm (createUser cm now u db).2 ∧
      Step cm False (ledger db) (ledger (createUser cm now u db).2) (.createUser u)
        (createUser cm now u db).1 := by
  unfold createUser
  dsimp only
  split
  · exact ⟨hk, Or.inl ⟨rfl, rfl, trivial⟩⟩
  · rename_i hany
    rw [Bool.not_eq_true, List.any_eq_false] at hany
    have hid : ∀ r ∈ db.users, r.id ≠ (newUser cm now u).id :=
      fun r hr he => hany r hr (by simp [he])
    have hkeeps : Keeps cm u (scanUser (newUser cm now u)) :=
      ⟨rfl, rfl, rfl, rfl, rfl, rfl, rfl, nullIfEmpty_getD u.mfaSecret, rfl,
        normalizeEmail_normalizeEmail cm u.email⟩
    refine ⟨⟨nodup_append hk.userID hid, fun r hr => ?_, hk.sessionID, hk.refreshHash,
      hk.tokenHash⟩, Or.inr ⟨rfl, scanUser (newUser cm now u), hkeeps, rfl, ?_⟩⟩
    · rw [List.mem_append, List.mem_singleton] at hr
      obtain hr | rfl := hr
      · exact hk.email r hr
      · exact normalizeEmail_normalizeEmail cm u.email
    · exact ledger_putUser fun id => by rw [rowWith_put hid, map_scanUser_if]; rfl

theorem exec_updateUser (hk : Keyed cm db) (now : Time) (u : User) :
    Keyed cm (updateUser cm now u db).2 ∧
      Step cm False (ledger db) (ledger (updateUser cm now u db).2) (.updateUser u)
        (updateUser cm now u db).1 := by
  unfold updateUser
  split
  · exact ⟨hk, Or.inl ⟨rfl, rfl, trivial⟩⟩
  · rename_i r hr
    split
    · exact ⟨hk, Or.inl ⟨rfl, rfl, trivial⟩⟩
    · obtain ⟨hmem, hid⟩ := rowWith_some hr
      have hset : ∀ q : UserRow, (setUser cm now u q).id = q.id := fun q => by rw [setUser]
      have htenant : (scanUser (setUser cm now u r)).tenantID = (scanUser r).tenantID := by
        simp only [scanUser, setUser]
      have hcreated : (scanUser (setUser cm now u r)).createdAt = (scanUser r).createdAt := by
        simp only [scanUser, setUser]
      refine ⟨⟨nodup_updateWhere hset hk.userID, fun q hq => ?_, hk.sessionID, hk.refreshHash,
        hk.tokenHash⟩, Or.inr ⟨rfl, scanUser r, scanUser (setUser cm now u r), ?_,
          ⟨keeps_row hid now, fun _ => htenant, fun he => ?_, fun _ => hcreated⟩, ledger_putUser ?_⟩⟩
      · obtain ⟨q', hq', rfl⟩ := List.mem_map.mp hq
        split
        · exact normalizeEmail_normalizeEmail cm u.email
        · exact hk.email q' hq'
      · exact congrArg (Option.map scanUser) hr
      · change normalizeEmail cm u.email = r.email
        rw [he]
        exact hk.email r hmem
      · intro id
        rw [rowWith_set _ hset hr, map_scanUser_if, ← hid]
        rfl

theorem step_getUserByEmail (hk : Keyed cm db) (email : String) :
    Step cm False (ledger db) (ledger db) (.getUserByEmail email) (getUserByEmail cm email db) := by
  refine ⟨rfl, fun u hu => ?_⟩
  unfold getUserByEmail at hu
  split at hu
  · cases hu
  · rename_i r hr
    cases hu
    obtain ⟨hmem, hkey⟩ := rowWith_some hr
    have hlower : ∀ e : String, toLower cm (normalizeEmail cm e) = normalizeEmail cm e := by
      intro e
      rw [normalizeEmail, toLower_toLower]
    refine ⟨congrArg (Option.map scanUser) (rowWith_mem hk.userID hmem), ?_⟩
    rw [hlower, ← hk.email r hmem, hlower] at hkey
    exact hkey

theorem exec_createSession (hk : Keyed cm db) (s : Session) :
    Keyed cm (createSession s db).2 ∧
      Step cm False (ledger db) (ledger (createSession s db).2) (.createSession s)
        (createSession s db).1 := by
  unfold createSession
  split
  · exact ⟨hk, Or.inl ⟨rfl, rfl, id⟩⟩
  · rename_i hany
    rw [Bool.not_eq_true, Bool.or_eq_false_iff, List.any_eq_false] at hany
    have hid : ∀ r ∈ db.sessions, r.id ≠ s.id := fun r hr he => hany.1 r hr (by simp [he])
    have hhash : ∀ r ∈ db.sessions, r.refreshHash ≠ s.refreshHash :=
      fun r hr he => hany.1 r hr (by simp [he])
    refine ⟨⟨hk.userID, hk.email, nodup_append hk.sessionID hid, nodup_append hk.refreshHash hhash,
      hk.tokenHash⟩, Or.inr ⟨rfl, ledger_putSession (rowWith_put hid)⟩⟩

theorem exec_updateSession (hk : Keyed cm db) {s : Session}
    (hs : ∃ s₀, (ledger db).session s.id = some s₀ ∧ identity s = identity s₀) :
    Keyed cm (updateSession s db).2 ∧
      Step cm False (ledger db) (ledger (updateSession s db).2) (.updateSession s)
        (updateSession s db).1 := by
  obtain ⟨s₀, hs₀, hi⟩ := hs
  have hset : setSession s s₀ = s := (congrArg (setSession s) hi).symm
  have hid : ∀ r, (setSession s r).id = r.id := fun _ => rfl
  have hhash : ∀ r, (setSession s r).refreshHash = r.refreshHash := fun _ => rfl
  refine ⟨⟨hk.userID, hk.email, nodup_updateWhere hid hk.sessionID,
    nodup_updateWhere hhash hk.refreshHash, hk.tokenHash⟩,
    Or.inr ⟨rfl, ledger_putSession fun id => ?_⟩⟩
  rw [rowWith_set _ hid hs₀, hset]
  rfl

theorem exec_revokeSessionsForUser (hk : Keyed cm db) (now : Time) (userID : String) :
    Keyed cm (revokeSessionsForUser now userID db).2 ∧
      Step cm False (ledger db) (ledger (revokeSessionsForUser now userID db).2)
        (.revokeSessionsForUser userID) (revokeSessionsForUser now userID db).1 := by
  have hid : ∀ r, (setRevoked now r).id = r.id := fun _ => rfl
  have hhash : ∀ r, (setRevoked now r).refreshHash = r.refreshHash := fun _ => rfl
  refine ⟨⟨hk.userID, hk.email, nodup_updateWhere hid hk.sessionID,
    nodup_updateWhere hhash hk.refreshHash, hk.tokenHash⟩, Or.inr ⟨rfl, now, ?_⟩⟩
  have hsession : (fun id => rowWith Session.id id (revokeSessionsForUser now userID db).2.sessions)
      = (revokeAll (ledger db) now userID).session := by
    funext id
    simp only [revokeSessionsForUser, revokeAll, ledger]
    rw [rowWith_updateWhere _ _ hid]
    refine congrArg (fun f => Option.map f (rowWith Session.id id db.sessions)) (funext fun s => ?_)
    simp only [revoke, setRevoked, Bool.and_eq_true, decide_eq_true_eq, Option.isNone_iff_eq_none]
  exact congrArg (fun f => Ledger.mk (ledger db).user f (ledger db).token) hsession

theorem exec_createToken (hk : Keyed cm db) (t : Token) :
    Keyed cm (createToken t db).2 ∧
      Step cm False (ledger db) (ledger (createToken t db).2) (.createToken t)
        (createToken t db).1 := by
  unfold createToken
  split
  · exact ⟨hk, Or.inl ⟨rfl, rfl, id⟩⟩
  · rename_i hany
    rw [Bool.not_eq_true, Bool.or_eq_false_iff] at hany
    have hhash := any_key_false hany.1
    refine ⟨⟨hk.userID, hk.email, hk.sessionID, hk.refreshHash, nodup_append hk.tokenHash hhash⟩,
      Or.inr ⟨rfl, ledger_putToken (rowWith_put hhash)⟩⟩

theorem exec_markTokenUsed (hk : Keyed cm db) (now : Time) (hash : String) :
    Keyed cm (markTokenUsed now hash db).2 ∧
      Step cm False (ledger db) (ledger (markTokenUsed now hash db).2) (.markTokenUsed hash)
        (markTokenUsed now hash db).1 := by
  unfold markTokenUsed
  split
  · exact ⟨hk, Or.inl ⟨rfl, rfl, trivial⟩⟩
  · rename_i t ht
    have hhash : ∀ r, (setUsed now r).hash = r.hash := fun _ => rfl
    have hused : t.usedAt.or (some now) = some (t.usedAt.getD now) := by
      cases t.usedAt <;> rfl
    refine ⟨⟨hk.userID, hk.email, hk.sessionID, hk.refreshHash, nodup_updateWhere hhash hk.tokenHash⟩,
      Or.inr ⟨rfl, t, t.usedAt.getD now, ht, ledger_putToken fun k => ?_⟩⟩
    rw [rowWith_set _ hhash ht, setUsed, hused, ← (rowWith_some ht).2]
    rfl

theorem step_failed (v : Ledger) (e : Err) (o : StoreOp) : Step cm False v v o (failed e o) := by
  cases o with
  | createUser u => exact Or.inl ⟨rfl, rfl, trivial⟩
  | updateUser u => exact Or.inl ⟨rfl, rfl, trivial⟩
  | getUserByID id => exact ⟨rfl, fun u h => (by cases h), fun h => h.elim⟩
  | getUserByEmail email => exact ⟨rfl, fun _ h => by cases h⟩
  | listUsersByTenant tenantID => rfl
  | createSession s => exact Or.inl ⟨rfl, rfl, id⟩
  | updateSession s => exact Or.inl ⟨rfl, rfl, id⟩
  | getSessionByID id => exact ⟨rfl, fun _ h => by cases h⟩
  | getSessionByRefreshHash hash => exact ⟨rfl, fun s h => (by cases h), fun h => h.elim⟩
  | listSessionsByUser userID => rfl
  | revokeSessionsForUser userID => exact Or.inl ⟨rfl, rfl, id⟩
  | createToken t => exact Or.inl ⟨rfl, rfl, id⟩
  | getToken hash => exact ⟨rfl, fun _ h => by cases h⟩
  | markTokenUsed hash => exact Or.inl ⟨rfl, rfl, trivial⟩

/-- The SQL store refines the ledger, statement failures included. -/
theorem exec_step (hk : Keyed cm db) (now : Time) (fault : Option Err) {o : StoreOp}
    (hG : Guard (ledger db) o) :
    Keyed cm (exec cm now fault o db).2 ∧
      Step cm False (ledger db) (ledger (exec cm now fault o db).2) o
        (exec cm now fault o db).1 := by
  cases fault with
  | some e => exact ⟨hk, step_failed (ledger db) e o⟩
  | none =>
    cases o with
    | createUser u => exact exec_createUser hk now u
    | updateUser u => exact exec_updateUser hk now u
    | getUserByID id =>
      refine ⟨hk, rfl, fun u hu => ?_, fun h => h.elim⟩
      simp only [exec, execute, getUserByID] at hu
      split at hu
      · cases hu
      · rename_i r hr
        cases hu
        exact congrArg (Option.map scanUser) hr
    | getUserByEmail email => exact ⟨hk, step_getUserByEmail hk email⟩
    | listUsersByTenant tenantID => exact ⟨hk, rfl⟩
    | createSession s => exact exec_createSession hk s
    | updateSession s => exact exec_updateSession hk hG.2
    | getSessionByID id =>
      refine ⟨hk, rfl, fun s hs => ?_⟩
      simp only [exec, execute, getSessionByID] at hs
      split at hs
      · cases hs
      · cases hs
        assumption
    | getSessionByRefreshHash hash =>
      refine ⟨hk, rfl, fun s hs => ?_, fun h => h.elim⟩
      simp only [exec, execute, getSessionByRefreshHash] at hs
      split at hs
      · cases hs
      · rename_i s' hr
        cases hs
        obtain ⟨hmem, hkey⟩ := rowWith_some hr
        exact ⟨rowWith_mem hk.sessionID hmem, hkey⟩
    | listSessionsByUser userID => exact ⟨hk, rfl⟩
    | revokeSessionsForUser userID => exact exec_revokeSessionsForUser hk now userID
    | createToken t => exact exec_createToken hk t
    | getToken hash =>
      refine ⟨hk, rfl, fun t ht => ?_⟩
      simp only [exec, execute, getToken] at ht
      split at ht
      · cases ht
      · cases ht
        assumption
    | markTokenUsed hash => exact exec_markTokenUsed hk now hash

end RivicQ.Authn.PostgresRefines

namespace RivicQ.Authn.Stores

open RivicQ.Lib.GoStrings RivicQ.Authn.Types RivicQ.Authn.Records

/-- The two implementations of the `Store` interface. -/
inductive Store where
  | memory (m : Memory.MemStore)
  | postgres (db : Postgres.SQLStore)

namespace Store

/-- Serve one call. The in-memory store reads the clock itself, the SQL store
may report that a statement failed. -/
def exec (cm : CaseMap) (t₀ t₁ : Time) (fault : Option Err) (o : StoreOp) :
    Store → o.Reply × Store
  | .memory m => ((Memory.exec cm t₀ t₁ o m).1, .memory (Memory.exec cm t₀ t₁ o m).2)
  | .postgres db =>
    ((Postgres.exec cm t₀ fault o db).1, .postgres (Postgres.exec cm t₀ fault o db).2)

def ledger : Store → Ledger
  | .memory m => MemoryRefines.ledger m
  | .postgres db => PostgresRefines.ledger db

def userByEmail (cm : CaseMap) (email : String) : Store → Except Err User
  | .memory m => Memory.getUserByEmail cm email m
  | .postgres db => Postgres.getUserByEmail cm email db

def WellFormed (cm : CaseMap) : Store → Prop
  | .memory m => MemoryRefines.Coherent cm m
  | .postgres db => PostgresRefines.Keyed cm db

/-- The store reports no failures of its own. -/
def total : Store → Prop
  | .memory _ => True
  | .postgres _ => False

def Empty (st : Store) : Prop := st = .memory Memory.empty ∨ st = .postgres Postgres.empty

variable {cm : CaseMap} {st : Store}

theorem wellFormed_empty (h : Empty st) : st.WellFormed cm := by
  obtain rfl | rfl := h
  · exact MemoryRefines.coherent_empty
  · exact PostgresRefines.keyed_empty

theorem ledger_empty (h : Empty st) : st.ledger = ⟨fun _ => none, fun _ => none, fun _ => none⟩ := by
  obtain rfl | rfl := h <;> rfl

theorem total_exec (t₀ t₁ : Time) (fault : Option Err) (o : StoreOp) :
    (st.exec cm t₀ t₁ fault o).2.total = st.total := by
  cases st <;> rfl

theorem userByEmail_of_exec {t₀ t₁ : Time} {fault : Option Err} {email : String} {u : User}
    (h : (st.exec cm t₀ t₁ fault (.getUserByEmail email)).1 = .ok u) :
    st.userByEmail cm email = .ok u := by
  cases st with
  | memory m => exact h
  | postgres db =>
    cases fault with
    | none => exact h
    | some e => cases h

/-- Both stores refine the ledger. -/
theorem exec_step (hw : st.WellFormed cm) (hv : WellKeyed st.ledger) (t₀ t₁ : Time)
    (fault : Option Err) {o : StoreOp} (hG : Guard st.ledger o) :
    (st.exec cm t₀ t₁ fault o).2.WellFormed cm ∧
      Step cm st.total st.ledger (st.exec cm t₀ t₁ fault o).2.ledger o
        (st.exec cm t₀ t₁ fault o).1 := by
  cases st with
  | memory m => exact MemoryRefines.exec_step hw hv t₀ t₁ hG
  | postgres db => exact PostgresRefines.exec_step hw t₀ fault hG

end Store

end RivicQ.Authn.Stores
