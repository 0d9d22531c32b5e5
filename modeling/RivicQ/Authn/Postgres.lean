import RivicQ.Authn.Records
import RivicQ.Lib.Tables

namespace RivicQ.Authn.Postgres

open RivicQ.Lib.GoStrings RivicQ.Lib.Tables RivicQ.Authn.Types RivicQ.Authn.Records

/-- A row of the `users` table; `mfa_secret` may be null. -/
structure UserRow where
  id : String
  tenantID : String
  email : String
  name : String
  role : Role
  password : String
  emailVerified : Bool
  mfaEnabled : Bool
  mfaSecret : Option String
  organisation : String
  disabled : Bool
  createdAt : Time
  updatedAt : Time
  deriving DecidableEq

/-- The three tables of the lifecycle. Rows are kept in insertion order; ids are
the text the uuid columns print. -/
structure SQLStore where
  users : List UserRow
  sessions : List Session
  tokens : List Token

def empty : SQLStore := ⟨[], [], []⟩

@[irreducible] def nullIfEmpty (s : String) : Option String := if trimSpace s = "" then none else some s

def scanUser (r : UserRow) : User where
  id := r.id
  tenantID := r.tenantID
  email := r.email
  name := r.name
  role := r.role
  organisation := r.organisation
  passwordHash := r.password
  emailVerified := r.emailVerified
  mfaEnabled := r.mfaEnabled
  mfaSecret := r.mfaSecret.getD ""
  disabled := r.disabled
  createdAt := r.createdAt
  updatedAt := r.updatedAt

/-- What the server reports when an insert breaks a key of `auth_sessions` or
`auth_tokens`, or names no user. -/
def constraintViolation : Err := .text "pq: constraint violation"

variable (cm : CaseMap)

/-- The row `INSERT INTO users` writes. -/
def newUser (now : Time) (u : User) : UserRow where
  id := u.id
  tenantID := u.tenantID
  email := normalizeEmail cm u.email
  name := u.name
  role := u.role
  password := u.passwordHash
  emailVerified := u.emailVerified
  mfaEnabled := u.mfaEnabled
  mfaSecret := nullIfEmpty u.mfaSecret
  organisation := u.organisation
  disabled := u.disabled
  createdAt := now
  updatedAt := now

def createUser (now : Time) (u : User) (db : SQLStore) : Except Err Unit × SQLStore :=
  let row := newUser cm now u
  if db.users.any (fun r => r.id = row.id || r.email = row.email) then (.error .emailTaken, db)
  else (.ok (), { db with users := db.users ++ [row] })

/-- The columns `UPDATE users` sets; tenant and creation time stay. -/
def setUser (now : Time) (u : User) (r : UserRow) : UserRow :=
  { r with
    email := normalizeEmail cm u.email
    name := u.name
    role := u.role
    password := u.passwordHash
    emailVerified := u.emailVerified
    mfaEnabled := u.mfaEnabled
    mfaSecret := nullIfEmpty u.mfaSecret
    organisation := u.organisation
    disabled := u.disabled
    updatedAt := now }

def updateUser (now : Time) (u : User) (db : SQLStore) : Except Err Unit × SQLStore :=
  match rowWith UserRow.id u.id db.users with
  | none => (.error .userNotFound, db)
  | some _ =>
    if db.users.any (fun r => r.id != u.id && r.email = normalizeEmail cm u.email) then
      (.error .emailTaken, db)
    else
      (.ok (), { db with users := updateWhere (fun r => r.id = u.id) (setUser cm now u) db.users })

def getUserByID (id : String) (db : SQLStore) : Except Err User :=
  match rowWith UserRow.id id db.users with
  | none => .error .userNotFound
  | some r => .ok (scanUser r)

def getUserByEmail (email : String) (db : SQLStore) : Except Err User :=
  match rowWith (fun r : UserRow => toLower cm r.email)
      (toLower cm (normalizeEmail cm email)) db.users with
  | none => .error .userNotFound
  | some r => .ok (scanUser r)

def listUsersByTenant (tenantID : String) (db : SQLStore) : Except Err (List User) :=
  .ok (((db.users.filter (fun r => tenantID = "" || r.tenantID = tenantID)).mergeSort
    (fun r q => !(decide (q.email < r.email)))).map scanUser)

def createSession (s : Session) (db : SQLStore) : Except Err Unit × SQLStore :=
  if db.sessions.any (fun r => r.id = s.id || r.refreshHash = s.refreshHash) ||
      !(db.users.any (fun r => r.id = s.userID)) then
    (.error constraintViolation, db)
  else (.ok (), { db with sessions := db.sessions ++ [s] })

/-- The columns `UPDATE auth_sessions` sets. -/
def setSession (s r : Session) : Session :=
  { r with rotatedTo := s.rotatedTo, revokedAt := s.revokedAt }

def updateSession (s : Session) (db : SQLStore) : Except Err Unit × SQLStore :=
  (.ok (), { db with sessions := updateWhere (fun r => r.id = s.id) (setSession s) db.sessions })

def getSessionByID (id : String) (db : SQLStore) : Except Err Session :=
  match rowWith Session.id id db.sessions with
  | none => .error .invalidToken
  | some s => .ok s

def getSessionByRefreshHash (hash : String) (db : SQLStore) : Except Err Session :=
  match rowWith Session.refreshHash (trimSpace hash) db.sessions with
  | none => .error .invalidToken
  | some s => .ok s

def listSessionsByUser (userID : String) (db : SQLStore) : Except Err (List Session) :=
  .ok ((db.sessions.filter (fun s => s.userID = userID)).mergeSort
    (fun s t => t.createdAt ≤ s.createdAt))

def setRevoked (now : Time) (r : Session) : Session := { r with revokedAt := some now }

def revokeSessionsForUser (now : Time) (userID : String) (db : SQLStore) :
    Except Err Unit × SQLStore :=
  (.ok (), { db with
    sessions := updateWhere (fun s => s.userID = userID && s.revokedAt.isNone) (setRevoked now)
      db.sessions })

def createToken (t : Token) (db : SQLStore) : Except Err Unit × SQLStore :=
  if db.tokens.any (fun r => r.hash = t.hash) || !(db.users.any (fun r => r.id = t.userID)) then
    (.error constraintViolation, db)
  else (.ok (), { db with tokens := db.tokens ++ [t] })

def getToken (hash : String) (db : SQLStore) : Except Err Token :=
  match rowWith Token.hash (trimSpace hash) db.tokens with
  | none => .error .invalidToken
  | some t => .ok t

/-- `COALESCE(used_at, NOW())`: the first use is kept. -/
def setUsed (now : Time) (r : Token) : Token := { r with usedAt := r.usedAt.or (some now) }

def markTokenUsed (now : Time) (hash : String) (db : SQLStore) : Except Err Unit × SQLStore :=
  match rowWith Token.hash (trimSpace hash) db.tokens with
  | none => (.error .invalidToken, db)
  | some _ =>
    (.ok (), { db with
      tokens := updateWhere (fun t => t.hash = trimSpace hash) (setUsed now) db.tokens })

/-- A statement the server could not run. -/
def failed (e : Err) : (o : StoreOp) → o.Reply
  | .createUser _ | .updateUser _ | .getUserByID _ | .getUserByEmail _ | .listUsersByTenant _
  | .createSession _ | .updateSession _ | .getSessionByID _ | .getSessionByRefreshHash _
  | .listSessionsByUser _ | .revokeSessionsForUser _ | .createToken _ | .getToken _
  | .markTokenUsed _ => .error e

def execute (now : Time) : (o : StoreOp) → SQLStore → o.Reply × SQLStore
  | .createUser u, db => createUser cm now u db
  | .updateUser u, db => updateUser cm now u db
  | .getUserByID id, db => (getUserByID id db, db)
  | .getUserByEmail email, db => (getUserByEmail cm email db, db)
  | .listUsersByTenant tenantID, db => (listUsersByTenant tenantID db, db)
  | .createSession s, db => createSession s db
  | .updateSession s, db => updateSession s db
  | .getSessionByID id, db => (getSessionByID id db, db)
  | .getSessionByRefreshHash hash, db => (getSessionByRefreshHash hash db, db)
  | .listSessionsByUser userID, db => (listSessionsByUser userID db, db)
  | .revokeSessionsForUser userID, db => revokeSessionsForUser now userID db
  | .createToken t, db => createToken t db
  | .getToken hash, db => (getToken hash db, db)
  | .markTokenUsed hash, db => markTokenUsed now hash db

/-- Serve one call of the interface with one statement, which may fail. -/
def exec (now : Time) (fault : Option Err) (o : StoreOp) (db : SQLStore) : o.Reply × SQLStore :=
  match fault with
  | some e => (failed e o, db)
  | none => execute cm now o db

end RivicQ.Authn.Postgres
