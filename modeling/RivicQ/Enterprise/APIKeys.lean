import RivicQ.Enterprise.Compliance
import RivicQ.Lib.Bytes

namespace RivicQ.Enterprise.APIKeys

open RivicQ.Lib.Tables RivicQ.Lib.Bytes RivicQ.Lib.Base64
open RivicQ.Enterprise.Compliance (Time)

/-- A row of `api_keys`. -/
structure APIKey where
  id : String
  tenantID : String
  name : String
  keyPrefix : Bytes
  keyHash : String
  role : String
  scopes : String
  expiresAt : Option Time
  lastUsedAt : Option Time
  status : String
  deriving DecidableEq

structure Database where
  apiKeys : List APIKey
  apiKeys_nodup : (apiKeys.map APIKey.id).Nodup

def Database.empty : Database := ⟨[], .nil⟩

/-- The manager: whether its database handle is live, and SHA-256 in hexadecimal. -/
structure APIKeyManager where
  ready : Bool
  sha256Hex : Bytes → String

/-- Thirty-two random bytes. -/
abbrev Draw := {b : Bytes // b.length = 32}

def generateAPIKey (draw : Draw) : Bytes := ascii "cb_" ++ ascii (hexString draw.val)

structure CreateBody where
  name : String
  role : String
  scopes : List String
  expiresAt : Option Time

structure UpdateBody where
  name : String
  role : String
  scopes : List String

inductive Request where
  /-- With what the random source yields, if it does, and the id drawn. -/
  | createKey (tenantID : String) (body : Option CreateBody) (draw : Option Draw) (newID : String)
  | revokeKey (tenantID id : String)
  | updateKey (tenantID id : String) (body : Except String UpdateBody)
  /-- With the reading of the clock, and whether the second statement fails. -/
  | authenticate (authHeader : Bytes) (now dbNow : Time) (writeFault : Bool)

/-- A request; its statement, or the first of two, may fail. -/
structure Call where
  request : Request
  fault : Bool := false

/-- What the middleware sets for the handlers that follow. -/
structure Identity where
  tenantID : String
  userID : String
  role : String
  authMethod : String
  deriving DecidableEq

inductive Reply where
  | answer (status : Nat) (message : String)
  | created (id name : String) (keyPrefix apiKey : Bytes)
  /-- The handlers that follow are reached. -/
  | passed (identity : Identity)
  /-- The answer is written, but the handlers that follow are reached all the same. -/
  | unavailable (status : Nat) (message : String)
  | panic
  deriving DecidableEq

variable (m : APIKeyManager)

def hashAPIKey (key : Bytes) : String := m.sha256Hex key

/-- `abortIfNoDB` and `jwtTenantOrAbort` before a handler. -/
def guarded (tenantID : String) (db : Database) (handler : Reply × Database) : Reply × Database :=
  if !m.ready then (.answer 503 "Enterprise database not available", db)
  else if tenantID = "" then (.answer 403 "tenant context required", db)
  else handler

/-- The insertion of a row whose key is not there yet. -/
def Database.insert (k : APIKey) (db : Database) : Option Database :=
  if h : ∀ q ∈ db.apiKeys, q.id ≠ k.id then
    some ⟨db.apiKeys ++ [k], nodup_append db.apiKeys_nodup h⟩
  else none

def newKey (tenantID id : String) (body : CreateBody) (rawKey : Bytes) : APIKey where
  id := id
  tenantID := tenantID
  name := body.name
  keyPrefix := rawKey.take 8
  keyHash := hashAPIKey m rawKey
  role := if body.role = "" then "viewer" else body.role
  scopes := ",".intercalate body.scopes
  expiresAt := body.expiresAt
  lastUsedAt := none
  status := "active"

def createKey (tenantID : String) (body : Option CreateBody) (draw : Option Draw) (newID : String)
    (fault : Bool) (db : Database) : Reply × Database :=
  guarded m tenantID db <|
    match body with
    | none => (.answer 400 "Invalid request", db)
    | some body =>
      if body.name = "" then (.answer 400 "Invalid request", db)
      else
        match draw with
        | none => (.panic, db)
        | some draw =>
          let rawKey := generateAPIKey draw
          match if fault then none else db.insert (newKey m tenantID newID body rawKey) with
          | none => (.answer 500 "Failed to create API key", db)
          | some db' => (.created newID body.name (rawKey.take 8) rawKey, db')

/-- An update of the rows that `p` selects. -/
def Database.update (p : APIKey → Bool) (f : APIKey → APIKey) (hf : ∀ k, (f k).id = k.id)
    (db : Database) : Database :=
  ⟨updateWhere p f db.apiKeys, nodup_updateWhere hf db.apiKeys_nodup⟩

def APIKey.setStatus (status : String) (k : APIKey) : APIKey := { k with status }

def APIKey.setLastUsed (now : Time) (k : APIKey) : APIKey := { k with lastUsedAt := some now }

def APIKey.edit (name role scopes : String) (k : APIKey) : APIKey :=
  { k with
    name := if name = "" then k.name else name
    role := if role = "" then k.role else role
    scopes := if scopes = "" then k.scopes else scopes }

@[simp] theorem APIKey.setStatus_id (status : String) (k : APIKey) :
    (k.setStatus status).id = k.id := rfl

@[simp] theorem APIKey.setLastUsed_id (now : Time) (k : APIKey) :
    (k.setLastUsed now).id = k.id := rfl

@[simp] theorem APIKey.edit_id (name role scopes : String) (k : APIKey) :
    (k.edit name role scopes).id = k.id := rfl

def revokeKey (tenantID id : String) (fault : Bool) (db : Database) : Reply × Database :=
  guarded m tenantID db <|
    if fault then (.answer 500 "Failed to revoke key", db)
    else (.answer 200 "API key revoked",
      db.update (fun k => k.id = id && k.tenantID = tenantID) (.setStatus "revoked")
        (APIKey.setStatus_id _))

def updateKey (tenantID id : String) (body : Except String UpdateBody) (fault : Bool)
    (db : Database) : Reply × Database :=
  guarded m tenantID db <|
    match body with
    | .error e => (.answer 400 e, db)
    | .ok body =>
      if fault then (.answer 500 "Failed to update key", db)
      else (.answer 200 "API key updated",
        db.update (fun k => k.id = id && k.tenantID = tenantID)
          (.edit body.name body.role (",".intercalate body.scopes)) (APIKey.edit_id _ _ _))

/-- The row of a raw key that is active. -/
def Database.select (keyPrefix : Bytes) (keyHash : String) (db : Database) : Option APIKey :=
  db.apiKeys.find? fun k => k.keyPrefix = keyPrefix && k.keyHash = keyHash && k.status = "active"

def expired (now : Time) (k : APIKey) : Bool := k.expiresAt.any (· < now)

def APIKey.identity (k : APIKey) : Identity where
  tenantID := k.tenantID
  userID := k.id
  role := k.role
  authMethod := "api_key"

/-- `APIKeyAuthMiddleware`. -/
def authenticate (authHeader : Bytes) (now dbNow : Time) (fault writeFault : Bool) (db : Database) :
    Reply × Database :=
  if !m.ready then (.unavailable 503 "Enterprise database not available", db)
  else if !(ascii "Bearer cb_").isPrefixOf authHeader then (.answer 401 "Invalid API key", db)
  else
    let rawKey := authHeader.drop 7
    -- The slice of the first eight bytes.
    if rawKey.length < 8 then (.panic, db)
    else
      match if fault then none else db.select (rawKey.take 8) (hashAPIKey m rawKey) with
      | none => (.answer 401 "Invalid or revoked API key", db)
      | some k =>
        let write f hf := if writeFault then db else db.update (fun q => q.id = k.id) f hf
        if expired now k then
          (.answer 401 "API key has expired", write (.setStatus "expired") (APIKey.setStatus_id _))
        else
          (.passed k.identity, write (.setLastUsed dbNow) (APIKey.setLastUsed_id _))

def step (db : Database) (c : Call) : Reply × Database :=
  match c.request with
  | .createKey tenantID body draw newID => createKey m tenantID body draw newID c.fault db
  | .revokeKey tenantID id => revokeKey m tenantID id c.fault db
  | .updateKey tenantID id body => updateKey m tenantID id body c.fault db
  | .authenticate authHeader now dbNow writeFault =>
    authenticate m authHeader now dbNow c.fault writeFault db

end RivicQ.Enterprise.APIKeys
