import RivicQ.Properties.OwnedRows

namespace RivicQ.Properties.StoredRows

open RivicQ.Lib.Projections RivicQ.Lib.Tables
open RivicQ.Database.Queries
open RivicQ.Enterprise.Compliance (UUID Time)
open RivicQ.Properties.OwnedRows (printer resolving server storing)
open RivicQ.Shared.Handlers (Call CompletedScan Printer Request Response analyzeThreats
  ensureTenant newCluster newEvent pendingReport persistAssets_eq persistThreatEvents
  queryCryptoAssets resolveEvent resolveSecurityEvent resolveSecurityEvent_snd scanReport step
  threatEvent)

section Changes

variable (sv : Server) (pr : Printer) (c : Call)

/-- The row of a report that a call asks to store. -/
def Stores (row : ReportRow) : Prop :=
  (∃ body, c.request = .createCBOMReport (.ok body) ∧
      reportRow sv (pendingReport c.tenant body) (c.turns 0) = some row) ∨
    ∃ scan, c.request = .persistCBOMScanResult scan ∧
      reportRow sv (scanReport pr c.tenant scan) (c.turns 1) = some row

/-- A call asks to delete a report, on behalf of the tenant that it belongs to. -/
def Deletes (row : ReportRow) : Prop :=
  ∃ id, c.request = .deleteCBOMReport id ∧ sv.parseUUID id = some row.id ∧ c.tenant = row.tenantID

/-- All that a call can do to the tables, where an empty text is no document. -/
inductive Changes (db : DB) : DB → Prop where
  | nothing : Changes db db
  | tenant : Changes db (db.insertTenant c.tenant)
  | report {base db' : DB} {row : ReportRow} (hbase : base = db ∨ base = db.insertTenant c.tenant)
      (hrow : Stores sv pr c row) (h : base.insertReport row = some db') : Changes db db'
  | deletion {id : String} {u : UUID} (hid : c.request = .deleteCBOMReport id)
      (hu : sv.parseUUID id = some u) :
      Changes db (db.deleteReports fun r => r.id = u && r.tenantID = c.tenant)
  | resolution (u : UUID) : Changes db (db.resolveEvents (·.id = u) (c.turns 0).now)
  | threats {analysis : Shared.Handlers.ThreatAnalysis}
      (h : analyzeThreats sv c.tenant c.now (c.turns 0) db = .ok analysis) :
      Changes db (persistThreatEvents sv pr c.tenant c.turns 1 analysis.threats db)

variable {sv pr c} {db : DB}

variable (db) in
theorem exec_snd {α : Type} (t : Turn) (stmt : DB → Option (α × DB)) :
    (exec t db stmt).2 = db ∨ ∃ x, stmt db = some x ∧ (exec t db stmt).2 = x.2 := by
  unfold exec
  cases h : stmt db with
  | none => cases t.fate <;> exact .inl rfl
  | some x =>
    cases t.fate with
    | answered | lost | cut n => exact .inr ⟨x, rfl, rfl⟩
    | refused => exact .inl rfl

theorem exec_none {α : Type} {t : Turn} {stmt : DB → Option (α × DB)} (h : stmt db = none) :
    exec t db stmt = (.error .failed, db) := by
  unfold exec
  cases t.fate <;> simp only [h]

theorem requireOneRow_snd (x : Except QueryError Nat × DB) : (requireOneRow x).2 = x.2 := by
  rcases x with ⟨_ | _ | _, _⟩ <;> rfl

variable (sv db) in
theorem createCBOMReport_snd (report : CBOMReport) (t : Turn) :
    (createCBOMReport sv report t db).2 = db ∨ ∃ row, reportRow sv report t = some row ∧
      db.insertReport row = some (createCBOMReport sv report t db).2 := by
  refine (exec_snd db t _).imp_right ?_
  rintro ⟨x, hx, hdb⟩
  simp only [Option.bind_eq_some_iff, Option.map_eq_some_iff] at hx
  obtain ⟨row, hrow, db', hinsert, rfl⟩ := hx
  exact ⟨row, hrow, hinsert.trans (congrArg some hdb.symm)⟩

variable (sv db) in
theorem deleteCBOMReport_snd (tenantID : String) (turns : Nat → Turn) (id : String) :
    (Shared.Handlers.deleteCBOMReport sv tenantID turns db id).2 = db ∨
      ∃ u, sv.parseUUID id = some u ∧
        (Shared.Handlers.deleteCBOMReport sv tenantID turns db id).2 =
          db.deleteReports fun r => r.id = u && r.tenantID = tenantID := by
  simp only [Shared.Handlers.deleteCBOMReport]
  cases getCBOMReport sv tenantID id (turns 0) db with
  | error e => exact .inl rfl
  | ok report =>
    have hquery : (deleteCBOMReport sv tenantID id (turns 1) db).2 = db ∨
        ∃ u, sv.parseUUID id = some u ∧ (deleteCBOMReport sv tenantID id (turns 1) db).2 =
          db.deleteReports fun r => r.id = u && r.tenantID = tenantID := by
      rw [deleteCBOMReport, requireOneRow_snd]
      refine (exec_snd db (turns 1) _).imp_right ?_
      rintro ⟨x, hx, h⟩
      simp only [Option.ite_none_right_eq_some, Option.map_eq_some_iff] at hx
      obtain ⟨-, u, hu, rfl⟩ := hx
      exact ⟨u, hu, h⟩
    rcases h : deleteCBOMReport sv tenantID id (turns 1) db with ⟨_ | _, db'⟩ <;>
      rwa [h] at hquery

variable (sv db) in
theorem ensureTenant_eq (tenantID : String) (t : Turn) :
    ensureTenant sv tenantID t db = db ∨
      ensureTenant sv tenantID t db = db.insertTenant tenantID := by
  refine (exec_snd db t _).imp_right ?_
  rintro ⟨x, hx, hdb⟩
  simp only [Option.ite_none_right_eq_some, Option.some_inj] at hx
  obtain ⟨-, rfl⟩ := hx
  exact hdb

end Changes

section Rejections

variable {sv : Server} (hempty : sv.jsonb "" = none) (tenantID : String) (turns : Nat → Turn)
  (db : DB)
include hempty

/-- An event without metadata is not stored. -/
theorem createSecurityEvent_error (body : Except String Shared.Handlers.NewEvent) :
    ∃ status message, Shared.Handlers.createSecurityEvent sv tenantID turns db body =
      (.error status message, db) := by
  cases body with
  | error e => exact ⟨400, e, rfl⟩
  | ok body =>
    have hrow : eventRow sv (newEvent tenantID body) (turns 0) = none := by
      rw [eventRow, newEvent, hempty]
      exact ite_self none
    have hcreate : createSecurityEvent sv (newEvent tenantID body) (turns 0) db =
        (.error .failed, db) := exec_none (by rw [hrow]; rfl)
    exact ⟨500, _, by rw [Shared.Handlers.createSecurityEvent, hcreate]⟩

/-- Nor is a cluster. -/
theorem addKubernetesCluster_error (body : Except String Shared.Handlers.NewCluster) :
    ∃ status message, Shared.Handlers.addKubernetesCluster sv tenantID turns db body =
      (.error status message, db) := by
  cases body with
  | error e => exact ⟨400, e, rfl⟩
  | ok body =>
    have hrow : clusterRow sv (newCluster tenantID body) (turns 0) = none := by
      rw [clusterRow, newCluster, hempty]
      exact ite_self none
    have hcreate : createKubernetesCluster sv (newCluster tenantID body) (turns 0) db =
        (.error .failed, db) := exec_none (by rw [hrow]; rfl)
    exact ⟨500, _, by rw [Shared.Handlers.addKubernetesCluster, hcreate]⟩

/-- An update whose documents are empty is turned down, and changes nothing. -/
theorem updateCBOMReport_error (id : String) (body : Except String Shared.Handlers.ReportUpdate) :
    ∃ status message, Shared.Handlers.updateCBOMReport sv tenantID turns db id body =
      (.error status message, db) := by
  rw [Shared.Handlers.updateCBOMReport]
  cases getCBOMReport sv tenantID id (turns 0) db with
  | error e => exact ⟨404, _, rfl⟩
  | ok report =>
    cases body with
    | error e => exact ⟨400, e, rfl⟩
    | ok body =>
      have hupdate : updateCBOMReport sv tenantID
          { id, name := body.name, version := body.version, status := body.status } (turns 1) db =
          (.error .failed, db) := by
        rw [updateCBOMReport, exec_none]
        · rfl
        · simp only [hempty]
          cases sv.parseUUID id <;> exact ite_self none
      refine ⟨500, "failed to update", ?_⟩
      simp only [Shared.Handlers.changeReport, hupdate]

theorem updateCryptoAsset_error (id : String) (body : Except String Shared.Handlers.AssetUpdate) :
    ∃ status message, Shared.Handlers.updateCryptoAsset sv tenantID turns db id body =
      (.error status message, db) := by
  cases body with
  | error e => exact ⟨400, e, rfl⟩
  | ok body =>
    have hupdate : updateCryptoAsset sv tenantID
        { id, algorithm := body.algorithm, keySize := body.keySize
          vulnerabilityScore := body.vulnerabilityScore, quantumSafe := body.quantumSafe }
        (turns 0) db = (.error .failed, db) := by
      rw [updateCryptoAsset, exec_none]
      · rfl
      · simp only [hempty]
        cases sv.parseUUID id <;> exact ite_self none
    refine ⟨500, "failed to update", ?_⟩
    simp only [Shared.Handlers.updateCryptoAsset, hupdate]

end Rejections

section Runs

theorem step_changes (sv : Server) (pr : Printer) (db : DB) (c : Call)
    (hempty : sv.jsonb "" = none) : Changes sv pr c db (step sv pr db c).2 := by
  cases hrequest : c.request with
  | createCBOMReport body =>
    cases body with
    | error e =>
      simp only [step, hrequest]
      exact .nothing
    | ok body =>
      have hdb : (step sv pr db c).2 =
          (createCBOMReport sv (pendingReport c.tenant body) (c.turns 0) db).2 := by
        simp only [step, hrequest, Shared.Handlers.createCBOMReport]
        rcases createCBOMReport sv (pendingReport c.tenant body) (c.turns 0) db with ⟨_ | _, _⟩ <;>
          rfl
      rw [hdb]
      rcases createCBOMReport_snd sv db (pendingReport c.tenant body) (c.turns 0)
        with h | ⟨row, hrow, h⟩
      · rw [h]
        exact .nothing
      · exact .report (.inl rfl) (.inl ⟨body, hrequest, hrow⟩) h
  | updateCBOMReport id body =>
    obtain ⟨status, message, h⟩ := updateCBOMReport_error hempty c.tenant c.turns db id body
    simp only [step, hrequest, h]
    exact .nothing
  | deleteCBOMReport id =>
    have hdb := deleteCBOMReport_snd sv db c.tenant c.turns id
    simp only [step, hrequest]
    rcases hdb with h | ⟨u, hu, h⟩
    · rw [h]
      exact .nothing
    · rw [h]
      exact .deletion hrequest hu
  | updateCryptoAsset id body =>
    obtain ⟨status, message, h⟩ := updateCryptoAsset_error hempty c.tenant c.turns db id body
    simp only [step, hrequest, h]
    exact .nothing
  | createSecurityEvent body =>
    obtain ⟨status, message, h⟩ := createSecurityEvent_error hempty c.tenant c.turns db body
    simp only [step, hrequest, h]
    exact .nothing
  | resolveSecurityEvent id =>
    simp only [step, hrequest, resolveSecurityEvent_snd]
    rcases exec_snd db (c.turns 0) fun db => (sv.parseUUID id).map fun u =>
        (db.events.countP (·.id = u), db.resolveEvents (·.id = u) (c.turns 0).now) with
      h | ⟨x, hx, h⟩
    · rw [resolveEvent, h]
      exact .nothing
    · obtain ⟨u, -, rfl⟩ := Option.map_eq_some_iff.mp hx
      rw [resolveEvent, h]
      exact .resolution u
  | addKubernetesCluster body =>
    obtain ⟨status, message, h⟩ := addKubernetesCluster_error hempty c.tenant c.turns db body
    simp only [step, hrequest, h]
    exact .nothing
  | persistCBOMScanResult scan =>
    have hdb : (step sv pr db c).2 = (createCBOMReport sv (scanReport pr c.tenant scan) (c.turns 1)
        (ensureTenant sv c.tenant (c.turns 0) db)).2 := by
      simp only [step, hrequest, Shared.Handlers.persistCBOMScanResult,
        Shared.Handlers.persistReport, persistAssets_eq]
      rcases createCBOMReport sv (scanReport pr c.tenant scan) (c.turns 1)
        (ensureTenant sv c.tenant (c.turns 0) db) with ⟨_ | _, _⟩ <;> rfl
    rw [hdb]
    have hensured := ensureTenant_eq sv db c.tenant (c.turns 0)
    rcases createCBOMReport_snd sv _ (scanReport pr c.tenant scan) (c.turns 1) with
      h | ⟨row, hrow, h⟩
    · rw [h]
      rcases hensured with h | h <;> rw [h]
      · exact .nothing
      · exact .tenant
    · exact .report hensured (.inr ⟨scan, hrequest, hrow⟩) h
  | performMLSecurityScan =>
    simp only [step, hrequest, Shared.Handlers.performMLSecurityScan]
    cases h : analyzeThreats sv c.tenant c.now (c.turns 0) db with
    | error e => exact .nothing
    | ok analysis => exact .threats h
  | listCBOMReports | getCBOMReport id | listCryptoAssets cbomReportID reportID
  | getCryptoAsset id | listSecurityEvents | getDashboardOverview | getMetrics
  | getComplianceStatus | getMetricsOverview | listKubernetesClusters | getClusterStatus id
  | getThreatIntelligence =>
    simp only [step, hrequest]
    exact .nothing

theorem insertTenant_rows (db : DB) (tenantID : String) :
    (db.insertTenant tenantID).reports = db.reports ∧
      (db.insertTenant tenantID).assets = db.assets ∧
      (db.insertTenant tenantID).events = db.events ∧
      (db.insertTenant tenantID).clusters = db.clusters := by
  unfold DB.insertTenant
  split <;> exact ⟨rfl, rfl, rfl, rfl⟩

theorem insertReport_rows {db db' : DB} {row : ReportRow} (h : db.insertReport row = some db') :
    db'.reports = db.reports ++ [row] ∧ db'.assets = db.assets ∧ db'.events = db.events ∧
      db'.clusters = db.clusters := by
  unfold DB.insertReport at h
  split at h
  · cases h
    exact ⟨rfl, rfl, rfl, rfl⟩
  · cases h

theorem insertEvent_reports {db db' : DB} {row : EventRow} (h : db.insertEvent row = some db') :
    db'.reports = db.reports := by
  unfold DB.insertEvent at h
  split at h
  · cases h
    rfl
  · cases h

/-- An event that is stored leaves the reports alone. -/
theorem reports_createSecurityEvent (sv : Server) (db : DB) (event : SecurityEvent) (t : Turn) :
    (createSecurityEvent sv event t db).2.reports = db.reports := by
  rw [createSecurityEvent]
  rcases exec_snd db t fun db => (eventRow sv event t).bind fun row =>
      (db.insertEvent row).map fun db' => ({ event with
        id := sv.uuidText t.id, createdAt := t.now, updatedAt := t.now }, db') with h | ⟨x, hx, h⟩
  · rw [h]
  · rw [h]
    simp only [Option.bind_eq_some_iff, Option.map_eq_some_iff] at hx
    obtain ⟨row, -, db', hinsert, rfl⟩ := hx
    exact insertEvent_reports hinsert

theorem reports_persistThreatEvents (sv : Server) (pr : Printer) (tenantID : String)
    (turns : Nat → Turn) (n : Nat) (ts : List Enterprise.Threats.ThreatDetection) (db : DB) :
    (persistThreatEvents sv pr tenantID turns n ts db).reports = db.reports := by
  induction ts generalizing n db with
  | nil => rfl
  | cons t ts ih =>
    rw [persistThreatEvents]
    split
    · exact ih n db
    · split
      · exact ih (n + 1) db
      · exact ih (n + 1) db
      · have hcreate := reports_createSecurityEvent sv db
          (threatEvent pr tenantID t) (turns (n + 1))
        dsimp only
        split
        · exact hcreate
        · exact (ih (n + 2) _).trans hcreate

/-- Reports are never changed: those that were there stay until their own tenant deletes them,
and new ones are just as they were asked for. -/
theorem changes_reports {sv : Server} {pr : Printer} {c : Call} {db db' : DB}
    (h : Changes sv pr c db db') :
    (∀ r ∈ db.reports, r ∈ db'.reports ∨ Deletes sv c r) ∧
      ∀ r ∈ db'.reports, r ∈ db.reports ∨ Stores sv pr c r := by
  have hsame : ∀ db'' : DB, db''.reports = db.reports →
      (∀ r ∈ db.reports, r ∈ db''.reports ∨ Deletes sv c r) ∧
        ∀ r ∈ db''.reports, r ∈ db.reports ∨ Stores sv pr c r := by
    intro db'' heq
    rw [heq]
    exact ⟨fun r hr => .inl hr, fun r hr => .inl hr⟩
  cases h with
  | nothing => exact hsame _ rfl
  | tenant => exact hsame _ (insertTenant_rows _ c.tenant).1
  | resolution u => exact hsame _ rfl
  | threats h => exact hsame _ (reports_persistThreatEvents ..)
  | @report base _ row hbase hrow h =>
    have hreports : base.reports = db.reports := by
      rcases hbase with rfl | rfl
      · rfl
      · exact (insertTenant_rows _ c.tenant).1
    rw [(insertReport_rows h).1, hreports]
    refine ⟨fun r hr => .inl (List.mem_append_left _ hr), fun r hr => ?_⟩
    rcases List.mem_append.mp hr with hold | hnew
    · exact .inl hold
    · cases List.mem_singleton.mp hnew
      exact .inr hrow
  | @deletion id u hid hu =>
    refine ⟨fun r hr => ?_, fun r hr => .inl (List.mem_filter.mp hr).1⟩
    by_cases hr' : r.id = u ∧ r.tenantID = c.tenant
    · exact .inr ⟨id, hid, hu.trans (congrArg some hr'.1.symm), hr'.2.symm⟩
    · exact .inl (List.mem_filter.mpr ⟨hr, by simpa [imp_iff_not_or] using hr'⟩)

/-- Whatever is called, and whatever becomes of the statements, a report is stored exactly as it
was asked for and stays so until its own tenant deletes it. -/
theorem reports_fixed (sv : Server) (pr : Printer) (hempty : sv.jsonb "" = none) (db : DB)
    (calls : List Call) :
    (∀ r ∈ db.reports, r ∈ (after (step sv pr) db calls).reports ∨ ∃ c ∈ calls, Deletes sv c r) ∧
      ∀ r ∈ (after (step sv pr) db calls).reports,
        r ∈ db.reports ∨ ∃ c ∈ calls, Stores sv pr c r := by
  induction calls generalizing db with
  | nil => exact ⟨fun r hr => .inl hr, fun r hr => .inl hr⟩
  | cons c calls ih =>
    obtain ⟨hkept, hnew⟩ := changes_reports (step_changes sv pr db c hempty)
    obtain ⟨ihkept, ihnew⟩ := ih (step sv pr db c).2
    constructor
    · intro r hr
      rcases hkept r hr with h | h
      · refine (ihkept r h).imp_right ?_
        rintro ⟨c', hc', hdeletes⟩
        exact ⟨c', List.mem_cons_of_mem c hc', hdeletes⟩
      · exact .inr ⟨c, List.mem_cons_self, h⟩
    · intro r hr
      rcases ihnew r hr with h | ⟨c', hc', hstores⟩
      · refine (hnew r h).imp_right fun h => ⟨c, List.mem_cons_self, h⟩
      · exact .inr ⟨c', List.mem_cons_of_mem c hc', hstores⟩

theorem reports_fixed_two :
    (∀ r ∈ DB.empty.reports,
        r ∈ (after (step server printer) DB.empty [storing, resolving]).reports ∨
          ∃ c ∈ [storing, resolving], Deletes server c r) ∧
      ∀ r ∈ (after (step server printer) DB.empty [storing, resolving]).reports,
        r ∈ DB.empty.reports ∨ ∃ c ∈ [storing, resolving], Stores server printer c r :=
  reports_fixed server printer (by decide) DB.empty [storing, resolving]

end Runs

section Inventories

variable {sv : Server} {pr : Printer} {c : Call} {db db' : DB}

/-- There are no assets, no events and no clusters. -/
structure Bare (db : DB) : Prop where
  assets : db.assets = []
  events : db.events = []
  clusters : db.clusters = []

theorem bind_ok {ε α β : Type} {x : Except ε α} {f : α → Except ε β} {b : β}
    (h : x.bind f = .ok b) : ∃ a, x = .ok a ∧ f a = .ok b := by
  cases x with
  | error e => cases h
  | ok a => exact ⟨a, rfl, h⟩

theorem map_ok {ε α β : Type} {x : Except ε α} {f : α → β} {b : β} (h : x.map f = .ok b) :
    ∃ a, x = .ok a ∧ f a = b := by
  cases x with
  | error e => cases h
  | ok a =>
    cases h
    exact ⟨a, rfl, rfl⟩

theorem queryRow_ok {α : Type} {t : Turn} {stmt : DB → Option α} {a : α}
    (h : queryRow t db stmt = .ok a) : stmt db = some a := by
  unfold queryRow at h
  split at h
  · rename_i hstmt
    cases h
    exact hstmt
  · cases h

theorem queryRows_ok {α : Type} {t : Turn} {stmt : DB → Option (List α)} {rows : List α}
    (h : queryRows t db stmt = .ok rows) : ∃ all, stmt db = some all ∧ rows <+: all := by
  unfold queryRows at h
  split at h
  · rename_i all _ hstmt
    cases h
    exact ⟨_, hstmt, List.prefix_rfl⟩
  · rename_i hstmt
    cases h
    exact ⟨_, hstmt, List.take_prefix _ _⟩
  · cases h

/-- Where there are no assets nothing is found. -/
theorem analyzeThreats_bare {tenantID : String} {now : Time} {t : Turn}
    {analysis : Shared.Handlers.ThreatAnalysis} (hbare : Bare db)
    (h : analyzeThreats sv tenantID now t db = .ok analysis) :
    analysis.threats = [] ∧ analysis.totalAssets = 0 := by
  unfold analyzeThreats at h
  cases hq : queryCryptoAssets sv tenantID t db with
  | error e =>
    rw [hq] at h
    cases h
  | ok assets =>
    have hrows := queryRow_ok hq
    rw [Option.ite_none_right_eq_some, assetsOf, hbare.assets] at hrows
    have hassets : assets = [] := by simpa [newestFirst, Shared.Handlers.readInventory] using
      hrows.2.symm
    subst hassets
    rw [hq] at h
    cases h
    refine ⟨?_, rfl⟩
    simp [Enterprise.Threats.aggregateByAlgorithm, Enterprise.Threats.buildThreats]

theorem changes_bare (h : Changes sv pr c db db') (hbare : Bare db) : Bare db' := by
  have htenant : Bare (db.insertTenant c.tenant) := by
    obtain ⟨-, hassets, hevents, hclusters⟩ := insertTenant_rows db c.tenant
    exact ⟨hassets.trans hbare.assets, hevents.trans hbare.events, hclusters.trans hbare.clusters⟩
  cases h with
  | nothing => exact hbare
  | tenant => exact htenant
  | resolution u => exact ⟨hbare.assets, congrArg (updateWhere _ _) hbare.events, hbare.clusters⟩
  | threats h =>
    rw [(analyzeThreats_bare hbare h).1]
    exact hbare
  | @report base _ row hbase hrow h =>
    obtain ⟨-, hassets, hevents, hclusters⟩ := insertReport_rows h
    have hbare' : Bare base := by
      rcases hbase with rfl | rfl
      · exact hbare
      · exact htenant
    exact ⟨hassets.trans hbare'.assets, hevents.trans hbare'.events,
      hclusters.trans hbare'.clusters⟩
  | @deletion id u hid hu =>
    exact ⟨congrArg (List.filter _) hbare.assets, hbare.events, hbare.clusters⟩

def blankMetrics : Metrics where
  totalAssets := 0
  quantumSafe := 0
  vulnerabilities := 0
  complianceScore := .tenths 855
  algorithms := []

/-- An answer that shows no asset, no event, no cluster and no threat, and no more of the
metrics than what they are without any. -/
def Blank : Response → Prop
  | .assets rows => rows = []
  | .events rows => rows = []
  | .clusters rows => rows = []
  | .asset _ | .event _ | .cluster _ | .updated _ | .resolved _ => False
  | .overview m | .metrics m | .metricsOverview m => ∀ metrics ∈ m, metrics = blankMetrics
  | .compliance score => score = .tenths 855 ∨ score = .tenths 0
  | .threats analysis | .mlScan analysis _ => analysis.threats = [] ∧ analysis.totalAssets = 0
  | _ => True

theorem rows_none {α : Type} {t : Turn} {stmt : DB → Option (List α)} {rows : List α}
    (h : queryRows t db stmt = .ok rows) (hnone : ∀ all, stmt db = some all → all = []) :
    rows = [] := by
  obtain ⟨all, hall, hprefix⟩ := queryRows_ok h
  rw [hnone all hall] at hprefix
  exact List.prefix_nil.mp hprefix

theorem orNotFound_ok {α : Type} {x : Except QueryError (Option α)} {a : α}
    (h : orNotFound x = .ok a) : x = .ok (some a) := by
  rcases x with e | _ | b
  · cases h
  · cases h
  · cases h
    rfl

theorem exec_ok {α : Type} {t : Turn} {stmt : DB → Option (α × DB)} {a : α}
    (h : exec t db stmt = (.ok a, db')) : stmt db = some (a, db') := by
  unfold exec at h
  split at h
  · rename_i hstmt
    cases h
    exact hstmt
  all_goals cases h

theorem ask_ok {α : Type} {t : Turn} {p : Bool} {f : DB → α} {a : α}
    (h : queryRow t db (fun db => if p then some (f db) else none) = .ok a) : a = f db := by
  have hrow := queryRow_ok h
  rw [Option.ite_none_right_eq_some, Option.some_inj] at hrow
  exact hrow.2.symm

theorem getMetricsOverview_bare {tenantID : String} {turns : Nat → Turn} {m : Metrics}
    (hbare : Bare db) (h : getMetricsOverview sv tenantID turns db = .ok m) : m = blankMetrics := by
  have hassets : assetsOf tenantID db = [] := by
    rw [assetsOf, hbare.assets]
    rfl
  simp only [getMetricsOverview] at h
  obtain ⟨total, htotal, h⟩ := bind_ok h
  obtain ⟨safe, hsafe, h⟩ := bind_ok h
  obtain ⟨vulnerabilities, hvulnerabilities, h⟩ := bind_ok h
  obtain ⟨algorithms, halgorithms, rfl⟩ := map_ok h
  have hnone : algorithms = [] := rows_none halgorithms fun all hall => by
    rw [Option.ite_none_right_eq_some, Option.some_inj, hassets] at hall
    exact hall.2.symm
  have htotal := ask_ok htotal
  have hsafe := ask_ok hsafe
  have hvulnerabilities := ask_ok hvulnerabilities
  rw [hassets] at htotal hsafe
  rw [hbare.events] at hvulnerabilities
  subst htotal hsafe hvulnerabilities hnone
  rfl

theorem blank_step (hempty : sv.jsonb "" = none) (hbare : Bare db) (c : Call) :
    Blank (step sv pr db c).1 := by
  have hmetrics : ∀ m ∈ (getMetricsOverview sv c.tenant c.turns db).toOption, m = blankMetrics := by
    cases h : getMetricsOverview sv c.tenant c.turns db with
    | error e => simp [Except.toOption]
    | ok m => simpa [Except.toOption] using getMetricsOverview_bare hbare h
  cases hrequest : c.request with
  | createCBOMReport body =>
    simp only [step, hrequest]
    cases body with
    | error e => trivial
    | ok body =>
      simp only [Shared.Handlers.createCBOMReport]
      split <;> trivial
  | listCBOMReports =>
    simp only [step, hrequest, Shared.Handlers.listCBOMReports]
    split <;> trivial
  | getCBOMReport id =>
    simp only [step, hrequest, Shared.Handlers.getCBOMReport]
    split <;> trivial
  | updateCBOMReport id body =>
    obtain ⟨status, message, h⟩ := updateCBOMReport_error hempty c.tenant c.turns db id body
    simp only [step, hrequest, h]
    trivial
  | deleteCBOMReport id =>
    simp only [step, hrequest, Shared.Handlers.deleteCBOMReport]
    split
    · trivial
    · split <;> trivial
  | listCryptoAssets cbomReportID reportID =>
    simp only [step, hrequest, Shared.Handlers.listCryptoAssets]
    generalize (if cbomReportID = "" then reportID else cbomReportID) = cbomID
    split
    · trivial
    · cases h : listCryptoAssets sv c.tenant cbomID 100 0 (c.turns 0) db with
      | error e => trivial
      | ok rows =>
        refine rows_none h fun all hall => ?_
        simp only [hbare.assets, Option.ite_none_right_eq_some, Option.map_eq_some_iff] at hall
        obtain ⟨-, u, -, rfl⟩ := hall
        simp [newestFirst, page]
  | getCryptoAsset id =>
    simp only [step, hrequest, Shared.Handlers.getCryptoAsset]
    cases h : getCryptoAsset sv c.tenant id (c.turns 0) db with
    | error e => trivial
    | ok asset =>
      have hrow := queryRow_ok (orNotFound_ok h)
      simp only [hbare.assets, Option.ite_none_right_eq_some, Option.map_eq_some_iff] at hrow
      obtain ⟨-, u, -, row, hfound, -⟩ := hrow
      cases hfound
  | updateCryptoAsset id body =>
    obtain ⟨status, message, h⟩ := updateCryptoAsset_error hempty c.tenant c.turns db id body
    simp only [step, hrequest, h]
    trivial
  | listSecurityEvents =>
    simp only [step, hrequest, Shared.Handlers.listSecurityEvents]
    cases h : listSecurityEvents sv c.tenant 100 0 (c.turns 0) db with
    | error e => trivial
    | ok rows =>
      refine rows_none h fun all hall => ?_
      simp only [hbare.events, Option.ite_none_right_eq_some, Option.some_inj] at hall
      rw [← hall.2]
      simp [newestFirst, page]
  | createSecurityEvent body =>
    obtain ⟨status, message, h⟩ := createSecurityEvent_error hempty c.tenant c.turns db body
    simp only [step, hrequest, h]
    trivial
  | resolveSecurityEvent id =>
    simp only [step, hrequest, resolveSecurityEvent]
    rcases h : resolveEvent sv db id (c.turns 0) with ⟨e | n, db'⟩
    · trivial
    · have hcount := exec_ok h
      simp only [hbare.events, Option.map_eq_some_iff] at hcount
      obtain ⟨u, -, hcount⟩ := hcount
      cases hcount
      trivial
  | getDashboardOverview =>
    simp only [step, hrequest]
    exact hmetrics
  | getMetrics =>
    simp only [step, hrequest]
    exact hmetrics
  | getComplianceStatus =>
    simp only [step, hrequest, Shared.Handlers.getComplianceStatus]
    cases h : getMetricsOverview sv c.tenant c.turns db with
    | error e => exact .inr rfl
    | ok m =>
      rw [getMetricsOverview_bare hbare h]
      exact .inl rfl
  | getMetricsOverview =>
    simp only [step, hrequest]
    exact hmetrics
  | listKubernetesClusters =>
    simp only [step, hrequest, Shared.Handlers.listKubernetesClusters]
    cases h : listKubernetesClusters sv c.tenant 100 0 (c.turns 0) db with
    | error e => trivial
    | ok rows =>
      refine rows_none h fun all hall => ?_
      simp only [hbare.clusters, Option.ite_none_right_eq_some, Option.some_inj] at hall
      rw [← hall.2]
      simp [newestFirst, page]
  | addKubernetesCluster body =>
    obtain ⟨status, message, h⟩ := addKubernetesCluster_error hempty c.tenant c.turns db body
    simp only [step, hrequest, h]
    trivial
  | getClusterStatus id =>
    simp only [step, hrequest]
    trivial
  | persistCBOMScanResult scan =>
    simp only [step, hrequest, Shared.Handlers.persistCBOMScanResult,
      Shared.Handlers.persistReport]
    split <;> trivial
  | getThreatIntelligence =>
    simp only [step, hrequest, Shared.Handlers.getThreatIntelligence]
    cases h : analyzeThreats sv c.tenant c.now (c.turns 0) db with
    | error e => trivial
    | ok analysis => exact analyzeThreats_bare hbare h
  | performMLSecurityScan =>
    simp only [step, hrequest, Shared.Handlers.performMLSecurityScan]
    cases h : analyzeThreats sv c.tenant c.now (c.turns 0) db with
    | error e => trivial
    | ok analysis => exact analyzeThreats_bare hbare h

/-- From empty tables on, whatever is called and whatever becomes of the statements, there never
is an asset, an event or a cluster, and no answer ever shows one. -/
theorem bare_throughout (sv : Server) (pr : Printer) (hempty : sv.jsonb "" = none) (db : DB)
    (hbare : Bare db) (calls : List Call) :
    ∀ x ∈ trace (step sv pr) db calls, Bare x.2 ∧ Blank x.1 := by
  induction calls generalizing db with
  | nil => simp [trace]
  | cons c calls ih =>
    have hnext := changes_bare (step_changes sv pr db c hempty) hbare
    simp only [trace, List.forall_mem_cons]
    exact ⟨⟨hnext, blank_step hempty hbare c⟩, ih _ hnext⟩

theorem bare_throughout_two : server.jsonb "" = none ∧
    ∀ x ∈ trace (step server printer) DB.empty [storing, resolving], Bare x.2 ∧ Blank x.1 :=
  ⟨by decide, bare_throughout server printer (by decide) DB.empty ⟨rfl, rfl, rfl⟩
    [storing, resolving]⟩

end Inventories

end RivicQ.Properties.StoredRows
