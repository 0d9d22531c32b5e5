import RivicQ.Enterprise.Compliance
import RivicQ.Enterprise.Threats

namespace RivicQ.Database.Queries

open RivicQ.Lib.Tables
open RivicQ.Enterprise.Compliance (UUID Time IsInteger)

section Rows

/-- A row of `cbom_reports`. -/
structure ReportRow where
  id : UUID
  tenantID : String
  name : String
  version : String
  cyclonedxBOM : String
  metadata : Option String
  status : Option String
  createdAt : Time
  updatedAt : Time

/-- A row of `crypto_assets`. -/
structure AssetRow where
  id : UUID
  tenantID : String
  cbomReportID : UUID
  algorithm : String
  keySize : Option Int
  usage : String
  location : Option String
  vulnerabilityScore : Option Int
  quantumSafe : Option Bool
  metadata : Option String
  createdAt : Time
  updatedAt : Time

/-- A row of `security_events`. -/
structure EventRow where
  id : UUID
  tenantID : String
  eventType : String
  severity : String
  source : String
  description : Option String
  metadata : Option String
  resolved : Option Bool
  createdAt : Time
  updatedAt : Time

/-- A row of `kubernetes_clusters`. -/
structure ClusterRow where
  id : UUID
  tenantID : String
  name : String
  endpoint : String
  version : Option String
  platform : Option String
  region : Option String
  status : Option String
  metadata : Option String
  createdAt : Time
  updatedAt : Time

/-- The tables with their keys. An asset stands under a report of its own tenant. -/
@[ext]
structure DB where
  tenants : List String
  reports : List ReportRow
  assets : List AssetRow
  events : List EventRow
  clusters : List ClusterRow
  reports_nodup : (reports.map ReportRow.id).Nodup
  assets_nodup : (assets.map AssetRow.id).Nodup
  events_nodup : (events.map EventRow.id).Nodup
  clusters_nodup : (clusters.map ClusterRow.id).Nodup
  reports_tenant : ∀ r ∈ reports, r.tenantID ∈ tenants
  assets_report : ∀ a ∈ assets, ∃ r ∈ reports, r.id = a.cbomReportID ∧ r.tenantID = a.tenantID
  events_tenant : ∀ e ∈ events, e.tenantID ∈ tenants
  clusters_tenant : ∀ c ∈ clusters, c.tenantID ∈ tenants

variable (db : DB)

def DB.empty : DB where
  tenants := []
  reports := []
  assets := []
  events := []
  clusters := []
  reports_nodup := List.nodup_nil
  assets_nodup := List.nodup_nil
  events_nodup := List.nodup_nil
  clusters_nodup := List.nodup_nil
  reports_tenant := by simp
  assets_report := by simp
  events_tenant := by simp
  clusters_tenant := by simp

def DB.insertTenant (id : String) : DB :=
  if id ∈ db.tenants then db
  else
    { db with
      tenants := db.tenants ++ [id]
      reports_tenant := fun r hr => List.mem_append_left _ (db.reports_tenant r hr)
      events_tenant := fun e he => List.mem_append_left _ (db.events_tenant e he)
      clusters_tenant := fun c hc => List.mem_append_left _ (db.clusters_tenant c hc) }

def DB.insertReport (r : ReportRow) : Option DB :=
  if h : (∀ q ∈ db.reports, q.id ≠ r.id) ∧ r.tenantID ∈ db.tenants then
    some { db with
      reports := db.reports ++ [r]
      reports_nodup := nodup_append db.reports_nodup h.1
      reports_tenant := by
        simp only [List.forall_mem_append, List.forall_mem_singleton]
        exact ⟨db.reports_tenant, h.2⟩
      assets_report := fun a ha =>
        have ⟨q, hq, howns⟩ := db.assets_report a ha
        ⟨q, List.mem_append_left _ hq, howns⟩ }
  else none

def DB.insertAsset (a : AssetRow) : Option DB :=
  if h : (∀ q ∈ db.assets, q.id ≠ a.id) ∧
      ∃ r ∈ db.reports, r.id = a.cbomReportID ∧ r.tenantID = a.tenantID then
    some { db with
      assets := db.assets ++ [a]
      assets_nodup := nodup_append db.assets_nodup h.1
      assets_report := by
        simp only [List.forall_mem_append, List.forall_mem_singleton]
        exact ⟨db.assets_report, h.2⟩ }
  else none

def DB.insertEvent (e : EventRow) : Option DB :=
  if h : (∀ q ∈ db.events, q.id ≠ e.id) ∧ e.tenantID ∈ db.tenants then
    some { db with
      events := db.events ++ [e]
      events_nodup := nodup_append db.events_nodup h.1
      events_tenant := by
        simp only [List.forall_mem_append, List.forall_mem_singleton]
        exact ⟨db.events_tenant, h.2⟩ }
  else none

def DB.insertCluster (c : ClusterRow) : Option DB :=
  if h : (∀ q ∈ db.clusters, q.id ≠ c.id) ∧ c.tenantID ∈ db.tenants then
    some { db with
      clusters := db.clusters ++ [c]
      clusters_nodup := nodup_append db.clusters_nodup h.1
      clusters_tenant := by
        simp only [List.forall_mem_append, List.forall_mem_singleton]
        exact ⟨db.clusters_tenant, h.2⟩ }
  else none

/-- The assets of a report go with it. -/
def DB.deleteReports (p : ReportRow → Bool) : DB :=
  { db with
    reports := db.reports.filter fun r => !p r
    assets := db.assets.filter fun a => db.reports.all fun r => !(p r && r.id = a.cbomReportID)
    reports_nodup := db.reports_nodup.sublist (List.filter_sublist.map _)
    assets_nodup := db.assets_nodup.sublist (List.filter_sublist.map _)
    reports_tenant := fun r hr => db.reports_tenant r (List.mem_filter.mp hr).1
    assets_report := by
      intro a ha
      obtain ⟨hmem, hall⟩ := List.mem_filter.mp ha
      obtain ⟨r, hr, hid, htenant⟩ := db.assets_report a hmem
      have hkept := List.all_eq_true.mp hall r hr
      exact ⟨r, List.mem_filter.mpr ⟨hr, by simpa [hid] using hkept⟩, hid, htenant⟩ }

/-- What `UpdateCBOMReport` makes of a row. -/
def ReportRow.set (name version bom : String) (metadata status : Option String) (now : Time)
    (r : ReportRow) : ReportRow :=
  { r with name, version, cyclonedxBOM := bom, metadata, status, updatedAt := now }

def DB.updateReports (p : ReportRow → Bool) (name version bom : String)
    (metadata status : Option String) (now : Time) : DB :=
  { db with
    reports := updateWhere p (.set name version bom metadata status now) db.reports
    reports_nodup := nodup_updateWhere (fun _ => by rfl) db.reports_nodup
    reports_tenant := by
      intro q hq
      obtain ⟨r, hr, rfl⟩ := List.mem_map.mp hq
      split <;> exact db.reports_tenant r hr
    assets_report := by
      intro a ha
      obtain ⟨r, hr, howns⟩ := db.assets_report a ha
      refine ⟨_, List.mem_map_of_mem hr, ?_⟩
      split <;> exact howns }

/-- What `UpdateCryptoAsset` makes of a row. -/
def AssetRow.set (algorithm : String) (keySize : Int) (usage location : String) (score : Int)
    (quantumSafe : Bool) (metadata : String) (now : Time) (a : AssetRow) : AssetRow :=
  { a with
    algorithm, usage, keySize := some keySize, location := some location
    vulnerabilityScore := some score, quantumSafe := some quantumSafe
    metadata := some metadata, updatedAt := now }

def DB.updateAssets (p : AssetRow → Bool) (algorithm : String) (keySize : Int)
    (usage location : String) (score : Int) (quantumSafe : Bool) (metadata : String)
    (now : Time) : DB :=
  { db with
    assets := updateWhere p
      (.set algorithm keySize usage location score quantumSafe metadata now) db.assets
    assets_nodup := nodup_updateWhere (fun _ => by rfl) db.assets_nodup
    assets_report := by
      intro q hq
      obtain ⟨a, ha, rfl⟩ := List.mem_map.mp hq
      split <;> exact db.assets_report a ha }

def EventRow.resolve (now : Time) (e : EventRow) : EventRow :=
  { e with resolved := some true, updatedAt := now }

def DB.resolveEvents (p : EventRow → Bool) (now : Time) : DB :=
  { db with
    events := updateWhere p (.resolve now) db.events
    events_nodup := nodup_updateWhere (fun _ => by rfl) db.events_nodup
    events_tenant := by
      intro q hq
      obtain ⟨e, he, rfl⟩ := List.mem_map.mp hq
      split <;> exact db.events_tenant e he }

end Rows

section Statements

/-- How it goes with a statement: it is answered or refused, it is carried out but its answer is
lost, or the connection breaks after some rows of the answer. -/
inductive Fate where
  | answered
  | refused
  | lost
  | cut (rows : Nat)

/-- What a statement meets: its fate, the UUID drawn for it and the clock of the server. -/
structure Turn where
  fate : Fate := .answered
  id : UUID := 0
  now : Time := 0

/-- What the server makes of texts: UUIDs, documents of type `JSONB`, and the texts that it takes
at all. -/
structure Server where
  parseUUID : String → Option UUID
  uuidText : UUID → String
  jsonb : String → Option String
  text : String → Bool

inductive QueryError where
  | notFound
  | failed

variable {α : Type} (t : Turn) (db : DB)

/-- A statement that changes the tables, and is turned down where it gives nothing. -/
def exec (stmt : DB → Option (α × DB)) : Except QueryError α × DB :=
  match t.fate, stmt db with
  | .answered, some (a, db') => (.ok a, db')
  | .lost, some (_, db') | .cut _, some (_, db') => (.error .failed, db')
  | _, _ => (.error .failed, db)

/-- A statement that asks for one row, which is then read. -/
def queryRow (stmt : DB → Option α) : Except QueryError α :=
  match t.fate, stmt db with
  | .answered, some a => .ok a
  | _, _ => .error .failed

/-- A statement that asks for rows; whether all of them came is not asked. -/
def queryRows (stmt : DB → Option (List α)) : Except QueryError (List α) :=
  match t.fate, stmt db with
  | .answered, some rows => .ok rows
  | .cut n, some rows => .ok (rows.take n)
  | _, _ => .error .failed

/-- An answer of no row. -/
def orNotFound : Except QueryError (Option α) → Except QueryError α
  | .ok (some a) => .ok a
  | .ok none => .error .notFound
  | .error e => .error e

/-- `requireOneRow`, after a write. -/
def requireOneRow : Except QueryError Nat × DB → Except QueryError Unit × DB
  | (.ok 0, db) => (.error .notFound, db)
  | (.ok _, db) => (.ok (), db)
  | (.error e, db) => (.error e, db)

/-- `ORDER BY created_at DESC`; rows of one time come as they are stored. -/
def newestFirst (createdAt : α → Time) (rows : List α) : List α :=
  rows.mergeSort fun a b => createdAt b ≤ createdAt a

/-- `LIMIT` and `OFFSET`. -/
def page (limit offset : Nat) (rows : List α) : List α := (rows.drop offset).take limit

end Statements

section Records

structure CBOMReport where
  id : String := ""
  tenantID : String := ""
  name : String
  version : String
  cyclonedxBOM : String := ""
  metadata : String := ""
  status : String
  createdAt : Time := 0
  updatedAt : Time := 0

structure CryptoAsset where
  id : String := ""
  tenantID : String := ""
  cbomReportID : String := ""
  algorithm : String
  keySize : Int
  usage : String := ""
  location : String := ""
  vulnerabilityScore : Int
  quantumSafe : Bool
  metadata : String := ""
  createdAt : Time := 0
  updatedAt : Time := 0

structure SecurityEvent where
  id : String := ""
  tenantID : String
  eventType : String
  severity : String
  source : String
  description : String
  metadata : String := ""
  resolved : Bool := false
  createdAt : Time := 0
  updatedAt : Time := 0

structure KubernetesCluster where
  id : String := ""
  tenantID : String
  name : String
  endpoint : String
  version : String
  platform : String
  region : String
  status : String
  metadata : String := ""
  createdAt : Time := 0
  updatedAt : Time := 0

variable (sv : Server)

def readReport (r : ReportRow) : CBOMReport :=
  { r with
    id := sv.uuidText r.id, metadata := r.metadata.getD "\x7b\x7d"
    status := r.status.getD "" }

def readAsset (a : AssetRow) : CryptoAsset :=
  { a with
    id := sv.uuidText a.id, cbomReportID := sv.uuidText a.cbomReportID
    keySize := a.keySize.getD 0, location := a.location.getD ""
    vulnerabilityScore := a.vulnerabilityScore.getD 0
    quantumSafe := a.quantumSafe.getD false, metadata := a.metadata.getD "\x7b\x7d" }

def readEvent (e : EventRow) : SecurityEvent :=
  { e with
    id := sv.uuidText e.id, description := e.description.getD ""
    metadata := e.metadata.getD "\x7b\x7d", resolved := e.resolved.getD false }

def readCluster (c : ClusterRow) : KubernetesCluster :=
  { c with
    id := sv.uuidText c.id, version := c.version.getD "", platform := c.platform.getD ""
    region := c.region.getD "", status := c.status.getD ""
    metadata := c.metadata.getD "\x7b\x7d" }

end Records

section Reports

variable (sv : Server)

/-- The row that an insertion asks for. -/
def reportRow (report : CBOMReport) (t : Turn) : Option ReportRow :=
  if [report.tenantID, report.name, report.version, report.status].all sv.text then
    (sv.jsonb report.cyclonedxBOM).bind fun bom => (sv.jsonb report.metadata).map fun metadata =>
      { report with
        id := t.id, cyclonedxBOM := bom, metadata := some metadata, status := some report.status
        createdAt := t.now, updatedAt := t.now }
  else none

def createCBOMReport (report : CBOMReport) (t : Turn) (db : DB) :
    Except QueryError CBOMReport × DB :=
  exec t db fun db => (reportRow sv report t).bind fun row => (db.insertReport row).map fun db' =>
    ({ report with id := sv.uuidText t.id, createdAt := t.now, updatedAt := t.now }, db')

def getCBOMReport (tenantID id : String) (t : Turn) (db : DB) : Except QueryError CBOMReport :=
  orNotFound <| queryRow t db fun db =>
    if sv.text tenantID then
      (sv.parseUUID id).map fun u =>
        (db.reports.find? fun r => r.id = u && r.tenantID = tenantID).map (readReport sv)
    else none

def listCBOMReports (tenantID : String) (limit offset : Nat) (t : Turn) (db : DB) :
    Except QueryError (List CBOMReport) :=
  queryRows t db fun db =>
    if sv.text tenantID then
      some ((page limit offset (newestFirst ReportRow.createdAt
        (db.reports.filter (·.tenantID = tenantID)))).map (readReport sv))
    else none

def updateCBOMReport (tenantID : String) (report : CBOMReport) (t : Turn) (db : DB) :
    Except QueryError Unit × DB :=
  requireOneRow <| exec t db fun db =>
    if [tenantID, report.name, report.version, report.status].all sv.text then
      (sv.parseUUID report.id).bind fun u => (sv.jsonb report.cyclonedxBOM).bind fun bom =>
        (sv.jsonb report.metadata).map fun metadata =>
          let p := fun r : ReportRow => r.id = u && r.tenantID = tenantID
          (db.reports.countP p, db.updateReports p report.name report.version bom
            (some metadata) (some report.status) t.now)
    else none

def deleteCBOMReport (tenantID id : String) (t : Turn) (db : DB) :
    Except QueryError Unit × DB :=
  requireOneRow <| exec t db fun db =>
    if sv.text tenantID then
      (sv.parseUUID id).map fun u =>
        let p := fun r : ReportRow => r.id = u && r.tenantID = tenantID
        (db.reports.countP p, db.deleteReports p)
    else none

end Reports

section Assets

variable (sv : Server)

def assetRow (asset : CryptoAsset) (t : Turn) : Option AssetRow :=
  if [asset.tenantID, asset.algorithm, asset.usage, asset.location].all sv.text ∧
      IsInteger asset.keySize ∧ IsInteger asset.vulnerabilityScore then
    (sv.parseUUID asset.cbomReportID).bind fun report =>
      (sv.jsonb asset.metadata).map fun metadata =>
      { asset with
        id := t.id, cbomReportID := report, keySize := some asset.keySize
        location := some asset.location, vulnerabilityScore := some asset.vulnerabilityScore
        quantumSafe := some asset.quantumSafe, metadata := some metadata
        createdAt := t.now, updatedAt := t.now }
  else none

/-- An asset of no tenant is not sent at all. -/
def createCryptoAsset (asset : CryptoAsset) (t : Turn) (db : DB) :
    Except QueryError CryptoAsset × DB :=
  if asset.tenantID = "" then (.error .failed, db)
  else
    exec t db fun db => (assetRow sv asset t).bind fun row => (db.insertAsset row).map fun db' =>
      ({ asset with id := sv.uuidText t.id, createdAt := t.now, updatedAt := t.now }, db')

def getCryptoAsset (tenantID id : String) (t : Turn) (db : DB) :
    Except QueryError CryptoAsset :=
  orNotFound <| queryRow t db fun db =>
    if sv.text tenantID then
      (sv.parseUUID id).map fun u =>
        (db.assets.find? fun a => a.id = u && a.tenantID = tenantID).map (readAsset sv)
    else none

def listCryptoAssets (tenantID cbomReportID : String) (limit offset : Nat) (t : Turn)
    (db : DB) : Except QueryError (List CryptoAsset) :=
  queryRows t db fun db =>
    if sv.text tenantID then
      (sv.parseUUID cbomReportID).map fun report =>
        (page limit offset (newestFirst AssetRow.createdAt (db.assets.filter fun a =>
          a.cbomReportID = report && a.tenantID = tenantID))).map (readAsset sv)
    else none

def updateCryptoAsset (tenantID : String) (asset : CryptoAsset) (t : Turn) (db : DB) :
    Except QueryError Unit × DB :=
  requireOneRow <| exec t db fun db =>
    if [tenantID, asset.algorithm, asset.usage, asset.location].all sv.text ∧
        IsInteger asset.keySize ∧ IsInteger asset.vulnerabilityScore then
      (sv.parseUUID asset.id).bind fun u => (sv.jsonb asset.metadata).map fun metadata =>
        let p := fun a : AssetRow => a.id = u && a.tenantID = tenantID
        (db.assets.countP p, db.updateAssets p asset.algorithm asset.keySize asset.usage
          asset.location asset.vulnerabilityScore asset.quantumSafe metadata t.now)
    else none

end Assets

section Events

variable (sv : Server)

def eventRow (event : SecurityEvent) (t : Turn) : Option EventRow :=
  if [event.tenantID, event.eventType, event.severity, event.source, event.description].all
      sv.text then
    (sv.jsonb event.metadata).map fun metadata =>
      { event with
        id := t.id, description := some event.description, metadata := some metadata
        resolved := some event.resolved, createdAt := t.now, updatedAt := t.now }
  else none

def createSecurityEvent (event : SecurityEvent) (t : Turn) (db : DB) :
    Except QueryError SecurityEvent × DB :=
  exec t db fun db => (eventRow sv event t).bind fun row => (db.insertEvent row).map fun db' =>
    ({ event with id := sv.uuidText t.id, createdAt := t.now, updatedAt := t.now }, db')

def listSecurityEvents (tenantID : String) (limit offset : Nat) (t : Turn) (db : DB) :
    Except QueryError (List SecurityEvent) :=
  queryRows t db fun db =>
    if sv.text tenantID then
      some ((page limit offset (newestFirst EventRow.createdAt
        (db.events.filter (·.tenantID = tenantID)))).map (readEvent sv))
    else none

end Events

section Clusters

variable (sv : Server)

def clusterRow (cluster : KubernetesCluster) (t : Turn) : Option ClusterRow :=
  if [cluster.tenantID, cluster.name, cluster.endpoint, cluster.version, cluster.platform,
      cluster.region, cluster.status].all sv.text then
    (sv.jsonb cluster.metadata).map fun metadata =>
      { cluster with
        id := t.id, version := some cluster.version, platform := some cluster.platform
        region := some cluster.region, status := some cluster.status, metadata := some metadata
        createdAt := t.now, updatedAt := t.now }
  else none

def createKubernetesCluster (cluster : KubernetesCluster) (t : Turn) (db : DB) :
    Except QueryError KubernetesCluster × DB :=
  exec t db fun db =>
    (clusterRow sv cluster t).bind fun row => (db.insertCluster row).map fun db' =>
      ({ cluster with id := sv.uuidText t.id, createdAt := t.now, updatedAt := t.now }, db')

def listKubernetesClusters (tenantID : String) (limit offset : Nat) (t : Turn) (db : DB) :
    Except QueryError (List KubernetesCluster) :=
  queryRows t db fun db =>
    if sv.text tenantID then
      some ((page limit offset (newestFirst ClusterRow.createdAt
        (db.clusters.filter (·.tenantID = tenantID)))).map (readCluster sv))
    else none

end Clusters

section Metrics

/-- A score in percent: a fixed one, in tenths, or the share of some assets in all. -/
inductive Score where
  | tenths (n : Nat)
  | share (part whole : Nat)

structure Metrics where
  totalAssets : Nat
  quantumSafe : Nat
  vulnerabilities : Nat
  complianceScore : Score
  algorithms : List (String × Nat)

variable (sv : Server)

/-- The assets under the reports of a tenant. -/
def assetsOf (tenantID : String) (db : DB) : List AssetRow :=
  db.assets.filter fun a => db.reports.any fun r => r.id = a.cbomReportID && r.tenantID = tenantID

/-- The groups of `GROUP BY`, with their counts. -/
def countsBy (keys : List String) : List (String × Nat) :=
  keys.dedup.map fun k => (k, keys.count k)

def getMetricsOverview (tenantID : String) (turns : Nat → Turn) (db : DB) :
    Except QueryError Metrics :=
  let ask {α : Type} (n : Nat) (stmt : DB → α) : Except QueryError α :=
    queryRow (turns n) db fun db => if sv.text tenantID then some (stmt db) else none
  (ask 0 fun db => (assetsOf tenantID db).length).bind fun total =>
    (ask 1 fun db =>
      (assetsOf tenantID db).countP fun a => a.quantumSafe = some true).bind fun safe =>
      (ask 2 fun db => db.events.countP fun e =>
        e.tenantID = tenantID && e.resolved = some false).bind fun vulnerabilities =>
        (queryRows (turns 3) db fun db =>
          if sv.text tenantID then some (countsBy ((assetsOf tenantID db).map (·.algorithm)))
          else none).map fun algorithms =>
          { totalAssets := total, quantumSafe := safe, vulnerabilities, algorithms
            complianceScore := if 0 < total then .share safe total else .tenths 855 }

end Metrics

end RivicQ.Database.Queries
