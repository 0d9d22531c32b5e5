import RivicQ.Enterprise.Compliance

namespace RivicQ.Enterprise.Inventory

open RivicQ.Lib.Tables
open RivicQ.Enterprise.Compliance (UUID Time)

/-- An asset in a request or an answer, its documents as text. -/
structure Asset where
  id : UUID
  tenantID : UUID
  assetID : String
  name : String
  description : String
  category : String
  subCategory : String
  cloudProvider : String
  region : String
  accountID : String
  metadata : String
  tags : String
  discoveredAt : Time
  lastScannedAt : Option Time
  deriving DecidableEq

/-- A row of `inventory_assets`. -/
structure AssetRow where
  id : UUID
  tenantID : UUID
  assetID : String
  name : String
  description : Option String
  category : String
  subCategory : Option String
  cloudProvider : Option String
  region : Option String
  accountID : Option String
  metadata : Option String
  tags : Option String
  discoveredAt : Option Time
  lastScannedAt : Option Time
  createdAt : Option Time
  updatedAt : Option Time
  deriving DecidableEq

/-- A row of `quantum_attestations`, with the columns that the handlers write. -/
structure AttestationRow where
  id : UUID
  tenantID : UUID
  status : String
  attestedAt : Option Time
  deriving DecidableEq

structure Database where
  assets : List AssetRow
  attestations : List AttestationRow
  assets_nodup : (assets.map AssetRow.id).Nodup
  attestations_nodup : (attestations.map AttestationRow.id).Nodup

/-- The parser of UUIDs, and which statements the server carries out: those whose values fit
their columns and after which the constraints of the tables hold. -/
structure Backend where
  parseUUID : String → Option UUID
  insertable : Database → AssetRow → Bool
  updatable : Database → UUID → Asset → Bool
  deletable : Database → UUID → Bool

inductive Request where
  | createAsset (body : Except String Asset)
  | updateAsset (id : String) (body : Except String Asset)
  | deleteAsset (id : String)
  | verifyAttestation (id : String)
  | refreshAttestation (id : String)

/-- A request of a caller, who belongs to a tenant, with the id drawn for it and the readings of
the two clocks. The server may fail to answer. -/
structure Call where
  tenantID : UUID
  request : Request
  newID : UUID
  now : Time
  dbNow : Time
  fault : Bool := false

inductive Response where
  | error (status : Nat) (message : String)
  | message (text : String)
  | created (asset : Asset)
  | verified (id : UUID) (status : String) (verifiedAt : Time) (message : String)
  | refreshed (id : UUID) (status : String) (message : String)
  deriving DecidableEq

variable (sv : Backend)

/-- The row that `CreateAsset` inserts. -/
def insertedRow (a : Asset) (dbNow : Time) : AssetRow where
  id := a.id
  tenantID := a.tenantID
  assetID := a.assetID
  name := a.name
  description := some a.description
  category := a.category
  subCategory := some a.subCategory
  cloudProvider := some a.cloudProvider
  region := some a.region
  accountID := some a.accountID
  metadata := some a.metadata
  tags := some a.tags
  discoveredAt := some a.discoveredAt
  lastScannedAt := none
  createdAt := some dbNow
  updatedAt := some dbNow

/-- The insertion of a row whose key is not there yet and that the server takes. -/
def Database.insertAsset (row : AssetRow) (db : Database) : Option Database :=
  if h : ∀ q ∈ db.assets, q.id ≠ row.id then
    if sv.insertable db row then
      some { db with
        assets := db.assets ++ [row]
        assets_nodup := nodup_append db.assets_nodup h }
    else none
  else none

def createAsset (body : Except String Asset) (newID : UUID) (now dbNow : Time) (fault : Bool)
    (db : Database) : Response × Database :=
  match body with
  | .error e => (.error 400 e, db)
  | .ok asset =>
    let asset := { asset with id := newID, discoveredAt := now }
    if fault then (.error 500 "Failed to create asset", db)
    else
      match db.insertAsset sv (insertedRow asset dbNow) with
      | none => (.error 500 "Failed to create asset", db)
      | some db' => (.created asset, db')

/-- What `UpdateAsset` makes of a row. -/
def Asset.apply (a : Asset) (now dbNow : Time) (row : AssetRow) : AssetRow :=
  { row with
    name := a.name
    description := some a.description
    subCategory := some a.subCategory
    cloudProvider := some a.cloudProvider
    region := some a.region
    accountID := some a.accountID
    metadata := some a.metadata
    tags := some a.tags
    lastScannedAt := some now
    updatedAt := some dbNow }

@[simp] theorem Asset.apply_id (a : Asset) (now dbNow : Time) (row : AssetRow) :
    (a.apply now dbNow row).id = row.id := rfl

@[simp] theorem Asset.apply_tenantID (a : Asset) (now dbNow : Time) (row : AssetRow) :
    (a.apply now dbNow row).tenantID = row.tenantID := rfl

def Database.updateAsset (a : Asset) (now dbNow : Time) (id : UUID) (db : Database) : Database :=
  { db with
    assets := updateWhere (fun r => r.id = id) (a.apply now dbNow) db.assets
    assets_nodup := nodup_updateWhere (a.apply_id now dbNow) db.assets_nodup }

def updateAsset (id : String) (body : Except String Asset) (now dbNow : Time) (fault : Bool)
    (db : Database) : Response × Database :=
  match sv.parseUUID id with
  | none => (.error 400 "Invalid asset ID", db)
  | some assetID =>
    match body with
    | .error e => (.error 400 e, db)
    | .ok asset =>
      if fault || !sv.updatable db assetID asset then (.error 500 "Failed to update asset", db)
      else (.message "Asset updated successfully", db.updateAsset asset now dbNow assetID)

def Database.deleteAsset (id : UUID) (db : Database) : Database :=
  { db with
    assets := db.assets.filter (·.id ≠ id)
    assets_nodup := db.assets_nodup.sublist (List.filter_sublist.map _) }

def deleteAsset (id : String) (fault : Bool) (db : Database) : Response × Database :=
  match sv.parseUUID id with
  | none => (.error 400 "Invalid asset ID", db)
  | some assetID =>
    if fault || !sv.deletable db assetID then (.error 500 "Failed to delete asset", db)
    else (.message "Asset deleted successfully", db.deleteAsset assetID)

/-- A row of an attestation with another status, attested at another time or not at all. -/
def AttestationRow.mark (status : String) (attestedAt : Option Time) (row : AttestationRow) :
    AttestationRow :=
  { row with status, attestedAt }

@[simp] theorem AttestationRow.mark_id (status : String) (attestedAt : Option Time)
    (row : AttestationRow) : (row.mark status attestedAt).id = row.id := rfl

@[simp] theorem AttestationRow.mark_tenantID (status : String) (attestedAt : Option Time)
    (row : AttestationRow) : (row.mark status attestedAt).tenantID = row.tenantID := rfl

def Database.markAttestation (status : String) (attestedAt : Option Time) (id : UUID)
    (db : Database) : Database :=
  { db with
    attestations := updateWhere (fun r => r.id = id) (.mark status attestedAt) db.attestations
    attestations_nodup := nodup_updateWhere (AttestationRow.mark_id _ _) db.attestations_nodup }

/-- Whether the statement failed is not looked at. -/
def verifyAttestation (id : String) (now dbNow : Time) (fault : Bool) (db : Database) :
    Response × Database :=
  match sv.parseUUID id with
  | none => (.error 400 "Invalid attestation ID", db)
  | some attestationID =>
    (.verified attestationID "attested" now "Attestation verified successfully",
      if fault then db else db.markAttestation "attested" (some dbNow) attestationID)

def refreshAttestation (id : String) (fault : Bool) (db : Database) : Response × Database :=
  match sv.parseUUID id with
  | none => (.error 400 "Invalid attestation ID", db)
  | some attestationID =>
    (.refreshed attestationID "refreshed" "Attestation refresh initiated",
      if fault then db else db.markAttestation "pending" none attestationID)

def step (db : Database) (c : Call) : Response × Database :=
  match c.request with
  | .createAsset body => createAsset sv body c.newID c.now c.dbNow c.fault db
  | .updateAsset id body => updateAsset sv id body c.now c.dbNow c.fault db
  | .deleteAsset id => deleteAsset sv id c.fault db
  | .verifyAttestation id => verifyAttestation sv id c.now c.dbNow c.fault db
  | .refreshAttestation id => refreshAttestation sv id c.fault db

end RivicQ.Enterprise.Inventory
