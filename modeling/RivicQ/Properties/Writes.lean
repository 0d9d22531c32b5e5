import RivicQ.Enterprise.Inventory
import RivicQ.Lib.Projections

namespace RivicQ.Properties.Writes

open RivicQ.Lib.Tables RivicQ.Lib.Projections RivicQ.Enterprise.Inventory
open RivicQ.Enterprise.Compliance (UUID Time)

variable (sv : Backend) (b : UUID)

/-- The rows of a tenant. -/
def ofTenant (db : Database) : List AssetRow × List AttestationRow :=
  (db.assets.filter (·.tenantID = b), db.attestations.filter (·.tenantID = b))

/-- Whatever asset of the tenant a text names satisfies `P`. -/
def NamingAsset (db : Database) (id : String) (P : UUID → AssetRow → Prop) : Prop :=
  ∀ assetID ∈ sv.parseUUID id, ∀ r ∈ rowWith AssetRow.id assetID db.assets,
    r.tenantID = b → P assetID r

instance (db : Database) (id : String) (P : UUID → AssetRow → Prop)
    [∀ assetID, DecidablePred (P assetID)] : Decidable (NamingAsset sv b db id P) :=
  inferInstanceAs (Decidable (∀ assetID ∈ sv.parseUUID id,
    ∀ r ∈ rowWith AssetRow.id assetID db.assets, r.tenantID = b → P assetID r))

/-- Whatever attestation of the tenant a text names satisfies `P`. -/
def NamingAttestation (db : Database) (id : String) (P : AttestationRow → Prop) : Prop :=
  ∀ attestationID ∈ sv.parseUUID id, ∀ r ∈ rowWith AttestationRow.id attestationID db.attestations,
    r.tenantID = b → P r

instance (db : Database) (id : String) (P : AttestationRow → Prop) [DecidablePred P] :
    Decidable (NamingAttestation sv b db id P) :=
  inferInstanceAs (Decidable (∀ attestationID ∈ sv.parseUUID id,
    ∀ r ∈ rowWith AttestationRow.id attestationID db.attestations, r.tenantID = b → P r))

/-- A new asset is not given to the tenant, and a change that names a row of it is turned down by
the server or writes what is there already. -/
def Apart (db : Database) (c : Call) : Prop :=
  c.fault = false →
    match c.request with
    | .createAsset (.ok a) => a.tenantID = b → (∀ r ∈ db.assets, r.id ≠ c.newID) →
      sv.insertable db (insertedRow { a with id := c.newID, discoveredAt := c.now } c.dbNow) = false
    | .updateAsset id (.ok a) => NamingAsset sv b db id fun assetID r =>
      sv.updatable db assetID a = true → a.apply c.now c.dbNow r = r
    | .deleteAsset id => NamingAsset sv b db id fun assetID _ => sv.deletable db assetID = false
    | .verifyAttestation id => NamingAttestation sv b db id fun r =>
      r.mark "attested" (some c.dbNow) = r
    | .refreshAttestation id => NamingAttestation sv b db id fun r => r.mark "pending" none = r
    | _ => True

variable {sv b} {db : Database}

theorem insertAsset_keeps (row : AssetRow) :
    (∀ db' ∈ db.insertAsset sv row, ofTenant b db' = ofTenant b db) ↔
      (row.tenantID = b → (∀ r ∈ db.assets, r.id ≠ row.id) → sv.insertable db row = false) := by
  by_cases hkey : ∀ r ∈ db.assets, r.id ≠ row.id
  · cases hok : sv.insertable db row with
    | false => simp [Database.insertAsset, hok]
    | true =>
      simp only [Database.insertAsset, dif_pos hkey, hok, if_true, Option.mem_some_iff, forall_eq',
        ofTenant, Prod.mk.injEq, filter_append_eq_self, and_true, decide_eq_false_iff_not]
      exact ⟨fun h htenant => absurd htenant h, fun h htenant => nomatch h htenant hkey⟩
  · simp [Database.insertAsset, hkey]

theorem updateAsset_keeps (a : Asset) (now dbNow : Time) (id : UUID) :
    ofTenant b (db.updateAsset a now dbNow id) = ofTenant b db ↔
      ∀ r ∈ rowWith AssetRow.id id db.assets, r.tenantID = b → a.apply now dbNow r = r := by
  rw [forall_rowWith db.assets_nodup]
  simp only [ofTenant, Database.updateAsset, Prod.mk.injEq, and_true]
  rw [filter_updateWhere_eq_self (f := a.apply now dbNow) fun _ => rfl]
  simp only [decide_eq_true_eq]

theorem deleteAsset_keeps (id : UUID) :
    ofTenant b (db.deleteAsset id) = ofTenant b db ↔
      ∀ r ∈ rowWith AssetRow.id id db.assets, r.tenantID ≠ b := by
  rw [forall_rowWith db.assets_nodup]
  simp only [ofTenant, Database.deleteAsset, Prod.mk.injEq, and_true, filter_filter_eq_self,
    decide_eq_true_eq]
  exact forall₂_congr fun r _ => ⟨fun h hid htenant => h htenant hid, fun h htenant hid =>
    h hid htenant⟩

theorem markAttestation_keeps (status : String) (attestedAt : Option Time) (id : UUID) :
    ofTenant b (db.markAttestation status attestedAt id) = ofTenant b db ↔
      ∀ r ∈ rowWith AttestationRow.id id db.attestations, r.tenantID = b →
        r.mark status attestedAt = r := by
  rw [forall_rowWith db.attestations_nodup]
  simp only [ofTenant, Database.markAttestation, Prod.mk.injEq, true_and]
  rw [filter_updateWhere_eq_self (f := AttestationRow.mark status attestedAt) fun _ => rfl]
  simp only [decide_eq_true_eq]

/-- A request keeps the rows of a tenant exactly if it is apart from them. -/
theorem keeps_iff_apart (c : Call) :
    ofTenant b (step sv db c).2 = ofTenant b db ↔ Apart sv b db c := by
  obtain ⟨a, request, newID, now, dbNow, fault⟩ := c
  cases fault with
  | true =>
    refine iff_of_true ?_ fun h => nomatch h
    cases request with
    | createAsset body => cases body <;> rfl
    | updateAsset id body =>
      simp only [step, updateAsset]
      cases sv.parseUUID id <;> cases body <;> rfl
    | deleteAsset id =>
      simp only [step, deleteAsset]
      cases sv.parseUUID id <;> rfl
    | verifyAttestation id =>
      simp only [step, verifyAttestation]
      cases sv.parseUUID id <;> rfl
    | refreshAttestation id =>
      simp only [step, refreshAttestation]
      cases sv.parseUUID id <;> rfl
  | false =>
    simp only [Apart, forall_const]
    cases request with
    | createAsset body =>
      cases body with
      | error e => exact iff_of_true rfl trivial
      | ok asset =>
        let row := insertedRow { asset with id := newID, discoveredAt := now } dbNow
        refine Iff.trans ?_ (insertAsset_keeps row)
        simp only [step, createAsset]
        cases db.insertAsset sv row <;> simp
    | updateAsset id body =>
      cases hid : sv.parseUUID id with
      | none => cases body <;> simp [step, updateAsset, NamingAsset, hid]
      | some assetID =>
        cases body with
        | error e => simp [step, updateAsset, hid]
        | ok asset =>
          cases hok : sv.updatable db assetID asset <;>
            simp [step, updateAsset, NamingAsset, hid, hok, updateAsset_keeps]
    | deleteAsset id =>
      cases hid : sv.parseUUID id with
      | none => simp [step, deleteAsset, NamingAsset, hid]
      | some assetID =>
        cases hok : sv.deletable db assetID <;>
          simp [step, deleteAsset, NamingAsset, hid, hok, deleteAsset_keeps]
    | verifyAttestation id =>
      cases hid : sv.parseUUID id <;>
        simp [step, verifyAttestation, NamingAttestation, hid, markAttestation_keeps]
    | refreshAttestation id =>
      cases hid : sv.parseUUID id <;>
        simp [step, refreshAttestation, NamingAttestation, hid, markAttestation_keeps]

/-- Whoever calls, the rows of a tenant are the same after every request of a run exactly if the
requests are all apart from them. -/
theorem rows_kept (sv : Backend) (db : Database) (b : UUID) (calls : List Call) :
    (∀ x ∈ trace (step sv) db calls, ofTenant b x.2 = ofTenant b db) ↔
      Along (step sv) (Apart sv b) db calls :=
  (keeps_iff (ofTenant b) db calls).trans
    (along_congr (I := fun _ => True) (fun _ _ _ => trivial) (fun _ c _ => keeps_iff_apart c)
      trivial calls)

/-- A server that takes everything. -/
def backend : Backend where
  parseUUID _ := none
  insertable _ _ := true
  updatable _ _ _ := true
  deletable _ _ := true

def empty : Database where
  assets := []
  attestations := []
  assets_nodup := .nil
  attestations_nodup := .nil

/-- An asset of the second tenant, in a request of the first. -/
def planted : Call where
  tenantID := 1
  request := .createAsset (.ok
    { id := 0, tenantID := 2, assetID := "kms-1", name := "planted", description := "",
      category := "cryptographic", subCategory := "", cloudProvider := "aws", region := "",
      accountID := "", metadata := "null", tags := "null", discoveredAt := 0,
      lastScannedAt := none })
  newID := 7
  now := 1
  dbNow := 1

theorem planted_not_kept : ¬ ∀ (sv : Backend) (db : Database) (a b : UUID) (calls : List Call),
    a ≠ b → (∀ c ∈ calls, c.tenantID = a) →
    ∀ x ∈ trace (step sv) db calls, ofTenant b x.2 = ofTenant b db := by
  intro h
  have hkept := h backend empty 1 2 [planted] (by decide) (by decide) _ (List.mem_singleton.mpr rfl)
  exact absurd hkept (by decide)

end RivicQ.Properties.Writes
