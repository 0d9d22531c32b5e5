import RivicQ.Database.Queries
import RivicQ.Discovery.Components
import RivicQ.Discovery.Scans

namespace RivicQ.Shared.Handlers

open RivicQ.Database.Queries
open RivicQ.Discovery.Scans (Tenant.normalize Tenant.publicTenantID)
open RivicQ.Discovery.Components (CBOMComponent SeverityLevel)
open RivicQ.Enterprise.Compliance (Time)
open RivicQ.Enterprise.Threats (CryptoAssetRow ThreatDetection AlgorithmStat RiskLevel
  aggregateByAlgorithm buildThreats)
open RivicQ.Lib.Patterns

section Requests

/-- The bodies that `ShouldBindJSON` binds: what is required is there. -/
structure NewReport where
  name : String
  version : String
  cyclonedxBOM : String
  metadata : String
  name_ne : name ≠ ""
  version_ne : version ≠ ""

structure ReportUpdate where
  name : String
  version : String
  status : String

structure AssetUpdate where
  algorithm : String
  keySize : Int
  vulnerabilityScore : Int
  quantumSafe : Bool

structure NewEvent where
  eventType : String
  severity : String
  source : String
  description : String
  eventType_ne : eventType ≠ ""
  severity_ne : severity ≠ ""
  source_ne : source ≠ ""

structure NewCluster where
  name : String
  endpoint : String
  version : String
  platform : String
  region : String
  name_ne : name ≠ ""
  endpoint_ne : endpoint ≠ ""

/-- A completed scan, and its result as `json.Marshal` writes it. -/
structure CompletedScan where
  scanID : String
  scanType : String
  target : String
  components : List CBOMComponent
  resultJSON : String

/-- The requests, with what was bound or the error of the binding. A scan that completes is
stored on behalf of the tenant that asked for it. -/
inductive Request where
  | createCBOMReport (body : Except String NewReport)
  | listCBOMReports
  | getCBOMReport (id : String)
  | updateCBOMReport (id : String) (body : Except String ReportUpdate)
  | deleteCBOMReport (id : String)
  | listCryptoAssets (cbomReportID reportID : String)
  | getCryptoAsset (id : String)
  | updateCryptoAsset (id : String) (body : Except String AssetUpdate)
  | listSecurityEvents
  | createSecurityEvent (body : Except String NewEvent)
  | resolveSecurityEvent (id : String)
  | getDashboardOverview
  | getMetrics
  | getComplianceStatus
  | getMetricsOverview
  | listKubernetesClusters
  | addKubernetesCluster (body : Except String NewCluster)
  | getClusterStatus (id : String)
  | persistCBOMScanResult (scan : CompletedScan)
  | getThreatIntelligence
  | performMLSecurityScan

/-- A request with the `tenant_id` of its context, the clock of the process, and what each of
its statements meets. -/
structure Call where
  tenantID : String
  request : Request
  now : Time := 0
  turns : Nat → Turn := fun _ => {}

/-- What `requestTenant` and, for the handlers of the enterprise edition, `tenantIDFor` make of
the `tenant_id`. -/
def Call.tenant (c : Call) : String :=
  match c.request with
  | .getThreatIntelligence | .performMLSecurityScan =>
    if c.tenantID = "" then Tenant.publicTenantID else c.tenantID
  | _ => Tenant.normalize c.tenantID

/-- The result of `analyzeThreats`, less the ratios of its counts. -/
structure ThreatAnalysis where
  threats : List ThreatDetection
  algorithmStats : List AlgorithmStat
  totalThreats : Nat
  critical : Nat
  high : Nat
  medium : Nat
  low : Nat
  quantumSafeAssets : Nat
  vulnerableAssets : Nat
  totalAssets : Nat
  generatedAt : Time

/-- Where there are no metrics the dashboards show values of their own. -/
inductive Response where
  | error (status : Nat) (message : String)
  | created (report : CBOMReport)
  | report (report : CBOMReport)
  | reports (rows : List CBOMReport)
  | updated (id : String)
  | deleted (id : String)
  | assets (rows : List CryptoAsset)
  | asset (asset : CryptoAsset)
  | events (rows : List SecurityEvent)
  | event (event : SecurityEvent)
  | resolved (id : String)
  | overview (metrics : Option Metrics)
  | metrics (metrics : Option Metrics)
  | compliance (score : Score)
  | metricsOverview (metrics : Option Metrics)
  | clusters (rows : List KubernetesCluster)
  | cluster (cluster : KubernetesCluster)
  | clusterStatus (id status note : String)
  | threats (analysis : ThreatAnalysis)
  | mlScan (analysis : ThreatAnalysis) (scanID : String)
  | persisted (reportID : Except Unit String)

end Requests

section Threats

/-- What this package writes into JSON: the quoted form of `%q`, and the metadata of a threat
with its confidence as a decimal fraction. -/
structure Printer where
  quote : String → String
  threatMetadata : ThreatDetection → String

variable (sv : Server) (pr : Printer)

/-- The inventory that the engine reads. A score that is `NULL` cannot be read. -/
def readInventory (rows : List AssetRow) : Option (List CryptoAssetRow) :=
  rows.mapM fun a => a.vulnerabilityScore.bind fun score => a.quantumSafe.map fun safe =>
    { id := sv.uuidText a.id, algorithm := a.algorithm, keySize := a.keySize.getD 0
      location := a.location.getD "", vulnerability := score, quantumSafe := safe }

def queryCryptoAssets (tenantID : String) (t : Turn) (db : DB) :
    Except QueryError (List CryptoAssetRow) :=
  queryRow t db fun db =>
    if sv.text tenantID then
      readInventory sv (newestFirst AssetRow.createdAt (assetsOf tenantID db))
    else none

def analyzeThreats (tenantID : String) (now : Time) (t : Turn) (db : DB) :
    Except QueryError ThreatAnalysis :=
  (queryCryptoAssets sv tenantID t db).map fun assets =>
    let stats := aggregateByAlgorithm assets
    let threats := buildThreats stats assets now
    let count (level : RiskLevel) := threats.countP (·.severity = level)
    { threats, algorithmStats := stats, totalThreats := threats.length
      critical := count .critical, high := count .high, medium := count .medium, low := count .low
      quantumSafeAssets := assets.countP (·.quantumSafe)
      vulnerableAssets := assets.length - assets.countP (·.quantumSafe)
      totalAssets := assets.length, generatedAt := now }

def eventExistsForSource (tenantID source threatID : String) (t : Turn) (db : DB) :
    Except QueryError Bool :=
  queryRow t db fun db =>
    if [tenantID, source, threatID].all sv.text then
      some (db.events.any fun e => e.tenantID = tenantID && e.source = source &&
        e.metadata.any fun m => like ('%' :: (threatID.toList ++ ['%'])) m.toList)
    else none

def threatEvent (tenantID : String) (t : ThreatDetection) : SecurityEvent where
  tenantID := tenantID
  eventType := t.type
  severity := t.severity.text
  source := t.source
  description := t.description
  metadata := pr.threatMetadata t

/-- Two statements for each threat that is critical or high: is it known, and if not, store it.
The loop ends at the first one that cannot be stored. -/
def persistThreatEvents (tenantID : String) (turns : Nat → Turn) :
    Nat → List ThreatDetection → DB → DB
  | _, [], db => db
  | n, t :: ts, db =>
    if t.severity ≠ .critical ∧ t.severity ≠ .high then
      persistThreatEvents tenantID turns n ts db
    else
      match eventExistsForSource sv tenantID t.source t.id (turns n) db with
      | .error _ | .ok true => persistThreatEvents tenantID turns (n + 1) ts db
      | .ok false =>
        let stored := createSecurityEvent sv (threatEvent pr tenantID t) (turns (n + 1)) db
        match stored.1 with
        | .error _ => stored.2
        | .ok _ => persistThreatEvents tenantID turns (n + 2) ts stored.2

end Threats

section Handlers

variable (sv : Server) (pr : Printer) (tenantID : String) (turns : Nat → Turn) (db : DB)

def pendingReport (body : NewReport) : CBOMReport where
  tenantID := tenantID
  name := body.name
  version := body.version
  cyclonedxBOM := if body.cyclonedxBOM = "" then "\x7b\x7d" else body.cyclonedxBOM
  metadata := if body.metadata = "" then "\x7b\x7d" else body.metadata
  status := "pending"

def createCBOMReport : Except String NewReport → Response × DB
  | .error e => (.error 400 e, db)
  | .ok body =>
    match Database.Queries.createCBOMReport sv (pendingReport tenantID body) (turns 0) db with
    | (.ok stored, db') => (.created stored, db')
    | (.error _, db') => (.error 500 "failed to create report", db')

def listCBOMReports : Response :=
  match Database.Queries.listCBOMReports sv tenantID 100 0 (turns 0) db with
  | .ok reports => .reports reports
  | .error _ => .error 500 "failed to list reports"

def getCBOMReport (id : String) : Response :=
  match Database.Queries.getCBOMReport sv tenantID id (turns 0) db with
  | .ok report => .report report
  | .error _ => .error 404 "report not found"

/-- The body has no documents, and the update sends empty ones. -/
def changeReport (id : String) : Except String ReportUpdate → Response × DB
  | .error e => (.error 400 e, db)
  | .ok body =>
    let report : CBOMReport :=
      { id, name := body.name, version := body.version, status := body.status }
    match Database.Queries.updateCBOMReport sv tenantID report (turns 1) db with
    | (.ok _, db') => (.updated id, db')
    | (.error _, db') => (.error 500 "failed to update", db')

def updateCBOMReport (id : String) (body : Except String ReportUpdate) : Response × DB :=
  match Database.Queries.getCBOMReport sv tenantID id (turns 0) db with
  | .error _ => (.error 404 "report not found", db)
  | .ok _ => changeReport sv tenantID turns db id body

def deleteCBOMReport (id : String) : Response × DB :=
  match Database.Queries.getCBOMReport sv tenantID id (turns 0) db with
  | .error _ => (.error 404 "report not found", db)
  | .ok _ =>
    match Database.Queries.deleteCBOMReport sv tenantID id (turns 1) db with
    | (.ok _, db') => (.deleted id, db')
    | (.error _, db') => (.error 500 "failed to delete", db')

def listCryptoAssets (cbomReportID reportID : String) : Response :=
  let cbomID := if cbomReportID = "" then reportID else cbomReportID
  if cbomID = "" then .error 400 "cbom_report_id query param required"
  else
    match Database.Queries.listCryptoAssets sv tenantID cbomID 100 0 (turns 0) db with
    | .ok assets => .assets assets
    | .error _ => .error 500 "failed to list assets"

def getCryptoAsset (id : String) : Response :=
  match Database.Queries.getCryptoAsset sv tenantID id (turns 0) db with
  | .ok asset => .asset asset
  | .error _ => .error 404 "asset not found"

def updateCryptoAsset (id : String) : Except String AssetUpdate → Response × DB
  | .error e => (.error 400 e, db)
  | .ok body =>
    let asset : CryptoAsset :=
      { id, algorithm := body.algorithm, keySize := body.keySize
        vulnerabilityScore := body.vulnerabilityScore, quantumSafe := body.quantumSafe }
    match Database.Queries.updateCryptoAsset sv tenantID asset (turns 0) db with
    | (.ok _, db') => (.updated id, db')
    | (.error _, db') => (.error 500 "failed to update", db')

def listSecurityEvents : Response :=
  match Database.Queries.listSecurityEvents sv tenantID 100 0 (turns 0) db with
  | .ok events => .events events
  | .error _ => .error 500 "failed to list events"

def newEvent (body : NewEvent) : SecurityEvent := { body with tenantID }

/-- The event has no metadata, and the insertion sends an empty text for it. -/
def createSecurityEvent : Except String NewEvent → Response × DB
  | .error e => (.error 400 e, db)
  | .ok body =>
    match Database.Queries.createSecurityEvent sv (newEvent tenantID body) (turns 0) db with
    | (.ok event, db') => (.event event, db')
    | (.error _, db') => (.error 500 "failed to create event", db')

/-- The statement does not ask for the tenant of the event. -/
def resolveEvent (id : String) (t : Turn) : Except QueryError Nat × DB :=
  exec t db fun db => (sv.parseUUID id).map fun u =>
    (db.events.countP (·.id = u), db.resolveEvents (·.id = u) t.now)

def resolveSecurityEvent (id : String) : Response × DB :=
  match resolveEvent sv db id (turns 0) with
  | (.ok 0, db') => (.error 404 "event not found", db')
  | (.ok _, db') => (.resolved id, db')
  | (.error _, db') => (.error 500 "failed to resolve event", db')

variable {sv turns db} in
theorem resolveSecurityEvent_snd {id : String} :
    (resolveSecurityEvent sv turns db id).2 = (resolveEvent sv db id (turns 0)).2 := by
  simp only [resolveSecurityEvent]
  rcases resolveEvent sv db id (turns 0) with ⟨_ | _ | _, _⟩ <;> rfl

def getDashboardOverview : Response :=
  .overview (Database.Queries.getMetricsOverview sv tenantID turns db).toOption

def getMetrics : Response :=
  .metrics (Database.Queries.getMetricsOverview sv tenantID turns db).toOption

def getComplianceStatus : Response :=
  match Database.Queries.getMetricsOverview sv tenantID turns db with
  | .ok metrics => .compliance metrics.complianceScore
  | .error _ => .compliance (.tenths 0)

def getMetricsOverview : Response :=
  .metricsOverview (Database.Queries.getMetricsOverview sv tenantID turns db).toOption

def listKubernetesClusters : Response :=
  match Database.Queries.listKubernetesClusters sv tenantID 100 0 (turns 0) db with
  | .ok clusters => .clusters clusters
  | .error _ => .error 500 "failed to list clusters"

def newCluster (body : NewCluster) : KubernetesCluster :=
  { body with tenantID, status := "active" }

/-- The cluster has no metadata either. -/
def addKubernetesCluster : Except String NewCluster → Response × DB
  | .error e => (.error 400 e, db)
  | .ok body =>
    match Database.Queries.createKubernetesCluster sv (newCluster tenantID body) (turns 0) db with
    | (.ok cluster, db') => (.cluster cluster, db')
    | (.error _, db') => (.error 500 "failed to add cluster", db')

def getClusterStatus (id : String) : Response :=
  .clusterStatus id "declared" ("No live kube-apiserver probe. " ++
    "POST /kubernetes/clusters/:id/scan with a host to run TLS against the workload ingress.")

def vulnerabilityScore : SeverityLevel → Int
  | .critical => 9
  | .high => 7
  | .medium => 4
  | .low => 1
  | _ => 0

/-- The assets are made without a tenant. -/
def persistAssets (reportID : String) : Nat → List CBOMComponent → DB → DB
  | _, [], db => db
  | n, comp :: comps, db =>
    let asset : CryptoAsset :=
      { cbomReportID := reportID, algorithm := comp.algorithm, keySize := comp.keySize
        usage := "cryptographic", location := comp.location
        vulnerabilityScore := vulnerabilityScore comp.riskLevel, quantumSafe := comp.quantumSafe
        metadata := "\x7b\"library\":" ++ pr.quote comp.library ++ ",\"version\":" ++
          pr.quote comp.version ++ ",\"pqc_status\":" ++ pr.quote comp.pqcStatus ++ "\x7d" }
    persistAssets reportID (n + 1) comps
      (Database.Queries.createCryptoAsset sv asset (turns n) db).2

/-- Without a tenant no asset is stored. -/
theorem persistAssets_eq (reportID : String) (n : Nat) (comps : List CBOMComponent) :
    persistAssets sv pr turns reportID n comps db = db := by
  induction comps generalizing n with
  | nil => rfl
  | cons comp comps ih => exact ih (n + 1)

def ensureTenant (t : Turn) (db : DB) : DB :=
  (exec t db fun db => if sv.text tenantID then some ((), db.insertTenant tenantID) else none).2

def scanReport (scan : CompletedScan) : CBOMReport where
  tenantID := tenantID
  name := scan.target
  version := "1.0"
  cyclonedxBOM := scan.resultJSON
  metadata := "\x7b\"scan_type\":" ++ pr.quote scan.scanType ++ ",\"scan_id\":" ++
    pr.quote scan.scanID ++ "\x7d"
  status := "completed"

def persistReport (scan : CompletedScan) : Response × DB :=
  match Database.Queries.createCBOMReport sv (scanReport pr tenantID scan) (turns 1) db with
  | (.ok stored, db') =>
    (.persisted (.ok stored.id), persistAssets sv pr turns stored.id 2 scan.components db')
  | (.error _, db') => (.persisted (.error ()), db')

def persistCBOMScanResult (scan : CompletedScan) : Response × DB :=
  persistReport sv pr tenantID turns (ensureTenant sv tenantID (turns 0) db) scan

def getThreatIntelligence (now : Time) : Response :=
  match analyzeThreats sv tenantID now (turns 0) db with
  | .ok analysis => .threats analysis
  | .error _ => .error 500 "Threat analysis failed"

def performMLSecurityScan (now : Time) : Response × DB :=
  match analyzeThreats sv tenantID now (turns 0) db with
  | .error _ => (.error 500 "ML security scan failed", db)
  | .ok analysis =>
    (.mlScan analysis ("ml-scan-" ++ toString (Enterprise.Threats.unix now)),
      persistThreatEvents sv pr tenantID turns 1 analysis.threats db)

end Handlers

/-- The server answers a call. -/
def step (sv : Server) (pr : Printer) (db : DB) (c : Call) : Response × DB :=
  match c.request with
  | .createCBOMReport body => createCBOMReport sv c.tenant c.turns db body
  | .listCBOMReports => (listCBOMReports sv c.tenant c.turns db, db)
  | .getCBOMReport id => (getCBOMReport sv c.tenant c.turns db id, db)
  | .updateCBOMReport id body => updateCBOMReport sv c.tenant c.turns db id body
  | .deleteCBOMReport id => deleteCBOMReport sv c.tenant c.turns db id
  | .listCryptoAssets cbomReportID reportID =>
    (listCryptoAssets sv c.tenant c.turns db cbomReportID reportID, db)
  | .getCryptoAsset id => (getCryptoAsset sv c.tenant c.turns db id, db)
  | .updateCryptoAsset id body => updateCryptoAsset sv c.tenant c.turns db id body
  | .listSecurityEvents => (listSecurityEvents sv c.tenant c.turns db, db)
  | .createSecurityEvent body => createSecurityEvent sv c.tenant c.turns db body
  | .resolveSecurityEvent id => resolveSecurityEvent sv c.turns db id
  | .getDashboardOverview => (getDashboardOverview sv c.tenant c.turns db, db)
  | .getMetrics => (getMetrics sv c.tenant c.turns db, db)
  | .getComplianceStatus => (getComplianceStatus sv c.tenant c.turns db, db)
  | .getMetricsOverview => (getMetricsOverview sv c.tenant c.turns db, db)
  | .listKubernetesClusters => (listKubernetesClusters sv c.tenant c.turns db, db)
  | .addKubernetesCluster body => addKubernetesCluster sv c.tenant c.turns db body
  | .getClusterStatus id => (getClusterStatus id, db)
  | .persistCBOMScanResult scan => persistCBOMScanResult sv pr c.tenant c.turns db scan
  | .getThreatIntelligence => (getThreatIntelligence sv c.tenant c.turns db c.now, db)
  | .performMLSecurityScan => performMLSecurityScan sv pr c.tenant c.turns db c.now

end RivicQ.Shared.Handlers
