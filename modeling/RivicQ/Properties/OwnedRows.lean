import RivicQ.Lib.Parts
import RivicQ.Shared.Handlers

namespace RivicQ.Properties.OwnedRows

open RivicQ.Lib.Projections RivicQ.Lib.Parts RivicQ.Lib.Tables
open RivicQ.Database.Queries
open RivicQ.Enterprise.Compliance (UUID Time)
open RivicQ.Shared.Handlers (Call CompletedScan Printer Request Response analyzeThreats
  ensureTenant eventExistsForSource newCluster newEvent pendingReport performMLSecurityScan
  persistAssets_eq persistCBOMScanResult persistReport persistThreatEvents queryCryptoAssets
  resolveEvent resolveSecurityEvent resolveSecurityEvent_snd scanReport step threatEvent)

section Parts

variable (t : String) (db : DB)

/-- What a tenant has of the tables. -/
def ownRows : DB where
  tenants := db.tenants.filter (· = t)
  reports := db.reports.filter (·.tenantID = t)
  assets := db.assets.filter (·.tenantID = t)
  events := db.events.filter (·.tenantID = t)
  clusters := db.clusters.filter (·.tenantID = t)
  reports_nodup := db.reports_nodup.sublist (List.filter_sublist.map _)
  assets_nodup := db.assets_nodup.sublist (List.filter_sublist.map _)
  events_nodup := db.events_nodup.sublist (List.filter_sublist.map _)
  clusters_nodup := db.clusters_nodup.sublist (List.filter_sublist.map _)
  reports_tenant := by
    simp only [List.mem_filter, decide_eq_true_eq]
    exact fun r hr => ⟨db.reports_tenant r hr.1, hr.2⟩
  assets_report := by
    simp only [List.mem_filter, decide_eq_true_eq]
    rintro a ⟨ha, rfl⟩
    obtain ⟨r, hr, hid, htenant⟩ := db.assets_report a ha
    exact ⟨r, ⟨hr, htenant⟩, hid, htenant⟩
  events_tenant := by
    simp only [List.mem_filter, decide_eq_true_eq]
    exact fun e he => ⟨db.events_tenant e he.1, he.2⟩
  clusters_tenant := by
    simp only [List.mem_filter, decide_eq_true_eq]
    exact fun c hc => ⟨db.clusters_tenant c hc.1, hc.2⟩

/-- No row of another tenant has one of the UUIDs. -/
def Unused (ids : Nat → UUID) (db : DB) : Prop :=
  ∀ n, (∀ r ∈ db.reports, r.id = ids n → r.tenantID = t) ∧
    (∀ e ∈ db.events, e.id = ids n → e.tenantID = t) ∧
    ∀ c ∈ db.clusters, c.id = ids n → c.tenantID = t

variable {t} {db}

/-- Whether UUIDs are used by others shows in the parts of the others. -/
theorem Unused.of_others {ids : Nat → UUID} {db' : DB} (h : Unused t ids db)
    (hothers : ∀ s, s ≠ t → ownRows s db' = ownRows s db) : Unused t ids db' := by
  intro n
  obtain ⟨hreports, hevents, hclusters⟩ := h n
  refine ⟨fun r hr hid => ?_, fun e he hid => ?_, fun c hc hid => ?_⟩
  · by_contra hne
    have hmem : r ∈ (ownRows r.tenantID db').reports := List.mem_filter.mpr ⟨hr, by simp⟩
    rw [hothers _ hne] at hmem
    exact hne (hreports r (List.mem_filter.mp hmem).1 hid)
  · by_contra hne
    have hmem : e ∈ (ownRows e.tenantID db').events := List.mem_filter.mpr ⟨he, by simp⟩
    rw [hothers _ hne] at hmem
    exact hne (hevents e (List.mem_filter.mp hmem).1 hid)
  · by_contra hne
    have hmem : c ∈ (ownRows c.tenantID db').clusters := List.mem_filter.mpr ⟨hc, by simp⟩
    rw [hothers _ hne] at hmem
    exact hne (hclusters c (List.mem_filter.mp hmem).1 hid)

end Parts

section Tables

variable {t s : String} {db db' : DB}

theorem ownRows_insertTenant : ownRows t (db.insertTenant t) = (ownRows t db).insertTenant t := by
  by_cases h : t ∈ db.tenants
  · have hown : t ∈ (ownRows t db).tenants := List.mem_filter.mpr ⟨h, by simp⟩
    rw [DB.insertTenant, if_pos h, DB.insertTenant, if_pos hown]
  · have hown : t ∉ (ownRows t db).tenants := fun hm => h (List.mem_filter.mp hm).1
    rw [DB.insertTenant, if_neg h, DB.insertTenant, if_neg hown]
    exact DB.ext (by simp [ownRows]) rfl rfl rfl rfl

theorem others_insertTenant (hne : s ≠ t) : ownRows s (db.insertTenant t) = ownRows s db := by
  by_cases h : t ∈ db.tenants
  · rw [DB.insertTenant, if_pos h]
  · rw [DB.insertTenant, if_neg h]
    exact DB.ext (by simp [ownRows, Ne.symm hne]) rfl rfl rfl rfl

/-- A row of a tenant goes in where its key is new among the rows of the tenant. -/
theorem insertable_iff {R : Type} (rows : List R) (key : R → UUID) (owner : R → String) {u : UUID}
    (hunused : ∀ q ∈ rows, key q = u → owner q = t) (tenants : List String) :
    ((∀ q ∈ rows.filter (owner · = t), key q ≠ u) ∧ t ∈ tenants.filter (· = t)) ↔
      (∀ q ∈ rows, key q ≠ u) ∧ t ∈ tenants := by
  simp only [List.mem_filter, decide_eq_true_eq, and_true]
  refine and_congr_left fun _ => ⟨fun h q hq hkey => ?_, fun h q hq => h q hq.1⟩
  exact h q ⟨hq, hunused q hq hkey⟩ hkey

theorem ownRows_insertReport {r : ReportRow} (htenant : r.tenantID = t)
    (hunused : ∀ q ∈ db.reports, q.id = r.id → q.tenantID = t) :
    (db.insertReport r).map (ownRows t) = (ownRows t db).insertReport r := by
  subst htenant
  have hiff : ((∀ q ∈ (ownRows r.tenantID db).reports, q.id ≠ r.id) ∧
      r.tenantID ∈ (ownRows r.tenantID db).tenants) ↔
        (∀ q ∈ db.reports, q.id ≠ r.id) ∧ r.tenantID ∈ db.tenants :=
    insertable_iff db.reports ReportRow.id ReportRow.tenantID hunused db.tenants
  by_cases h : (∀ q ∈ db.reports, q.id ≠ r.id) ∧ r.tenantID ∈ db.tenants
  · rw [DB.insertReport, dif_pos h, DB.insertReport, dif_pos (hiff.mpr h)]
    exact congrArg some (DB.ext rfl (by simp [ownRows]) rfl rfl rfl)
  · rw [DB.insertReport, dif_neg h, DB.insertReport, dif_neg fun h' => h (hiff.mp h')]
    rfl

theorem others_insertReport {r : ReportRow} (h : db.insertReport r = some db')
    (hne : s ≠ r.tenantID) : ownRows s db' = ownRows s db := by
  unfold DB.insertReport at h
  split at h
  · cases h
    exact DB.ext rfl (by simp [ownRows, Ne.symm hne]) rfl rfl rfl
  · cases h

theorem ownRows_insertEvent {e : EventRow} (htenant : e.tenantID = t)
    (hunused : ∀ q ∈ db.events, q.id = e.id → q.tenantID = t) :
    (db.insertEvent e).map (ownRows t) = (ownRows t db).insertEvent e := by
  subst htenant
  have hiff : ((∀ q ∈ (ownRows e.tenantID db).events, q.id ≠ e.id) ∧
      e.tenantID ∈ (ownRows e.tenantID db).tenants) ↔
        (∀ q ∈ db.events, q.id ≠ e.id) ∧ e.tenantID ∈ db.tenants :=
    insertable_iff db.events EventRow.id EventRow.tenantID hunused db.tenants
  by_cases h : (∀ q ∈ db.events, q.id ≠ e.id) ∧ e.tenantID ∈ db.tenants
  · rw [DB.insertEvent, dif_pos h, DB.insertEvent, dif_pos (hiff.mpr h)]
    exact congrArg some (DB.ext rfl rfl rfl (by simp [ownRows]) rfl)
  · rw [DB.insertEvent, dif_neg h, DB.insertEvent, dif_neg fun h' => h (hiff.mp h')]
    rfl

theorem others_insertEvent {e : EventRow} (h : db.insertEvent e = some db')
    (hne : s ≠ e.tenantID) : ownRows s db' = ownRows s db := by
  unfold DB.insertEvent at h
  split at h
  · cases h
    exact DB.ext rfl rfl rfl (by simp [ownRows, Ne.symm hne]) rfl
  · cases h

theorem ownRows_insertCluster {c : ClusterRow} (htenant : c.tenantID = t)
    (hunused : ∀ q ∈ db.clusters, q.id = c.id → q.tenantID = t) :
    (db.insertCluster c).map (ownRows t) = (ownRows t db).insertCluster c := by
  subst htenant
  have hiff : ((∀ q ∈ (ownRows c.tenantID db).clusters, q.id ≠ c.id) ∧
      c.tenantID ∈ (ownRows c.tenantID db).tenants) ↔
        (∀ q ∈ db.clusters, q.id ≠ c.id) ∧ c.tenantID ∈ db.tenants :=
    insertable_iff db.clusters ClusterRow.id ClusterRow.tenantID hunused db.tenants
  by_cases h : (∀ q ∈ db.clusters, q.id ≠ c.id) ∧ c.tenantID ∈ db.tenants
  · rw [DB.insertCluster, dif_pos h, DB.insertCluster, dif_pos (hiff.mpr h)]
    exact congrArg some (DB.ext rfl rfl rfl rfl (by simp [ownRows]))
  · rw [DB.insertCluster, dif_neg h, DB.insertCluster, dif_neg fun h' => h (hiff.mp h')]
    rfl

theorem others_insertCluster {c : ClusterRow} (h : db.insertCluster c = some db')
    (hne : s ≠ c.tenantID) : ownRows s db' = ownRows s db := by
  unfold DB.insertCluster at h
  split at h
  · cases h
    exact DB.ext rfl rfl rfl rfl (by simp [ownRows, Ne.symm hne])
  · cases h

/-- Deletions reach the reports of one tenant, and so the assets of that tenant. -/
theorem ownRows_deleteReports {p : ReportRow → Bool} (hp : ∀ r, p r = true → r.tenantID = t) :
    ownRows t (db.deleteReports p) = (ownRows t db).deleteReports p := by
  refine DB.ext rfl ?_ ?_ rfl rfl
  · exact List.filter_comm _ _ _
  · have hall : ∀ a : AssetRow, ((db.reports.filter (·.tenantID = t)).all fun r =>
        !(p r && r.id = a.cbomReportID)) =
          db.reports.all fun r => !(p r && r.id = a.cbomReportID) := by
      intro a
      rw [List.all_filter, Bool.eq_iff_iff, List.all_eq_true, List.all_eq_true]
      refine forall₂_congr fun r _ => ?_
      cases hr : p r with
      | false => simp
      | true => simp [hp r hr]
    simp only [ownRows, DB.deleteReports, hall]
    exact List.filter_comm _ _ _

theorem others_deleteReports {p : ReportRow → Bool} (hp : ∀ r, p r = true → r.tenantID = t)
    (hne : s ≠ t) : ownRows s (db.deleteReports p) = ownRows s db := by
  refine DB.ext rfl ?_ ?_ rfl rfl
  · refine filter_filter_eq_self.mpr fun r _ hr => ?_
    simp only [decide_eq_true_eq] at hr
    cases h : p r with
    | false => rfl
    | true => exact absurd (hr.symm.trans (hp r h)) hne
  · refine filter_filter_eq_self.mpr fun a ha hs => List.all_eq_true.mpr fun r hr => ?_
    simp only [decide_eq_true_eq] at hs
    obtain ⟨q, hq, hid, howner⟩ := db.assets_report a ha
    cases h : p r with
    | false => rfl
    | true =>
      have hreport : r.id ≠ a.cbomReportID := fun hrid => by
        have hsame := List.inj_on_of_nodup_map db.reports_nodup hr hq (hrid.trans hid.symm)
        exact hne (hs.symm.trans (howner.symm.trans (hsame ▸ hp r h)))
      simp [hreport]

theorem ownRows_updateReports {p : ReportRow → Bool} {name version bom : String}
    {metadata status : Option String} {now : Time} :
    ownRows t (db.updateReports p name version bom metadata status now) =
      (ownRows t db).updateReports p name version bom metadata status now :=
  DB.ext rfl (filter_updateWhere (fun _ => by rfl) db.reports) rfl rfl rfl

theorem ownRows_updateAssets {p : AssetRow → Bool} {algorithm usage location metadata : String}
    {keySize score : Int} {safe : Bool} {now : Time} :
    ownRows t (db.updateAssets p algorithm keySize usage location score safe metadata now) =
      (ownRows t db).updateAssets p algorithm keySize usage location score safe metadata now :=
  DB.ext rfl rfl (filter_updateWhere (fun _ => by rfl) db.assets) rfl rfl

/-- An update that reaches rows of one kind only keeps those of another. -/
theorem filter_updateWhere_other {R : Type} {p q : R → Bool} {f : R → R} (hq : ∀ r, q (f r) = q r)
    (hp : ∀ r, p r = true → q r = false) (rows : List R) :
    (updateWhere p f rows).filter q = rows.filter q :=
  (filter_updateWhere_eq_self hq).mpr fun r _ hpr hqr => by
    rw [hp r hpr] at hqr
    cases hqr

theorem others_updateReports {p : ReportRow → Bool} {name version bom : String}
    {metadata status : Option String} {now : Time} (hp : ∀ r, p r = true → r.tenantID = t)
    (hne : s ≠ t) :
    ownRows s (db.updateReports p name version bom metadata status now) = ownRows s db :=
  DB.ext rfl (filter_updateWhere_other (fun _ => by rfl)
    (fun r hr => by simp [hp r hr, Ne.symm hne]) db.reports) rfl rfl rfl

theorem others_updateAssets {p : AssetRow → Bool} {algorithm usage location metadata : String}
    {keySize score : Int} {safe : Bool} {now : Time} (hp : ∀ a, p a = true → a.tenantID = t)
    (hne : s ≠ t) :
    ownRows s (db.updateAssets p algorithm keySize usage location score safe metadata now) =
      ownRows s db :=
  DB.ext rfl rfl (filter_updateWhere_other (fun _ => by rfl)
    (fun a ha => by simp [hp a ha, Ne.symm hne]) db.assets) rfl rfl

theorem ownRows_resolveEvents {p : EventRow → Bool} {now : Time} :
    ownRows t (db.resolveEvents p now) = (ownRows t db).resolveEvents p now :=
  DB.ext rfl rfl rfl (filter_updateWhere (fun _ => by rfl) db.events) rfl

end Tables

section Statements

variable {α : Type} {t : String} {ids : Nat → UUID} {db : DB} {turn : Turn}

theorem confined_exec {stmt : DB → Option (α × DB)}
    (hown : Unused t ids db → (stmt db).map (Prod.map id (ownRows t)) = stmt (ownRows t db))
    (hothers : ∀ x ∈ stmt db, ∀ s, s ≠ t → ownRows s x.2 = ownRows s db) :
    Confined ownRows (Unused t ids) t (fun db => exec turn db stmt) db where
  reply hC := by
    simp only [exec, ← hown hC]
    cases turn.fate <;> cases stmt db <;> rfl
  own hC := by
    simp only [exec, ← hown hC]
    cases turn.fate <;> cases stmt db <;> rfl
  others s hs := by
    cases hstmt : stmt db with
    | none => cases hfate : turn.fate <;> simp only [exec, hstmt, hfate]
    | some x =>
      have hkept := hothers x hstmt s hs
      cases hfate : turn.fate <;> simp only [exec, hstmt, hfate, hkept]

/-- A row goes in on behalf of the tenant that it is for. -/
theorem confined_insert {Row : Type} {row : Option Row} {insert : DB → Row → Option DB}
    (stored : α)
    (hown : Unused t ids db → ∀ r ∈ row, (insert db r).map (ownRows t) = insert (ownRows t db) r)
    (hothers : ∀ r ∈ row, ∀ db' ∈ insert db r, ∀ s, s ≠ t → ownRows s db' = ownRows s db) :
    Confined ownRows (Unused t ids) t (fun db => exec turn db fun db =>
      row.bind fun r => (insert db r).map fun db' => (stored, db')) db := by
  cases row with
  | none => exact confined_exec (fun _ => rfl) fun x hx => by cases hx
  | some r =>
    refine confined_exec (fun hC => ?_) ?_
    · simp only [Option.bind_some, ← hown hC r rfl, Option.map_map]
      rfl
    · simp only [Option.bind_some, Option.mem_def, Option.map_eq_some_iff]
      rintro x ⟨db', hdb', rfl⟩
      exact hothers r rfl db' hdb'

theorem confined_requireOneRow {f : DB → Except QueryError Nat × DB}
    (h : Confined ownRows (Unused t ids) t f db) :
    Confined ownRows (Unused t ids) t (fun db => requireOneRow (f db)) db := by
  have heq : ∀ x : Except QueryError Nat × DB,
      requireOneRow x = ((requireOneRow x).1, x.2) := by
    rintro ⟨e | n, db⟩
    · rfl
    · cases n <;> rfl
  have hfirst : ∀ x : Except QueryError Nat × DB,
      (requireOneRow x).1 = (requireOneRow (x.1, Database.Queries.DB.empty)).1 := by
    rintro ⟨e | n, db⟩
    · rfl
    · cases n <;> rfl
  have hmap := confined_map h fun e => (requireOneRow (e, Database.Queries.DB.empty)).1
  simp only [← hfirst, ← heq] at hmap
  exact hmap

theorem queryRow_own {stmt : DB → Option α} (h : stmt db = stmt (ownRows t db)) :
    queryRow turn db stmt = queryRow turn (ownRows t db) stmt := by
  rw [queryRow, queryRow, h]

theorem queryRows_own {stmt : DB → Option (List α)} (h : stmt db = stmt (ownRows t db)) :
    queryRows turn db stmt = queryRows turn (ownRows t db) stmt := by
  rw [queryRows, queryRows, h]

/-- What asks for rows of the tenant finds them among its own. -/
theorem find?_own {R : Type} (rows : List R) (owner : R → String) (p : R → Bool) :
    rows.find? (fun r => p r && owner r = t) =
      (rows.filter (owner · = t)).find? fun r => p r && owner r = t := by
  rw [List.find?_filter]
  refine congrArg (fun q => rows.find? q) (funext fun r => ?_)
  by_cases h : owner r = t <;> simp [h]

theorem filter_own {R : Type} (rows : List R) (owner : R → String) (p : R → Bool) :
    (rows.filter (owner · = t)).filter (fun r => p r && owner r = t) =
      rows.filter fun r => p r && owner r = t := by
  rw [List.filter_filter]
  refine List.filter_congr fun r _ => ?_
  by_cases h : owner r = t <;> simp [h]

theorem countP_own {R : Type} (rows : List R) (owner : R → String) (p : R → Bool) :
    (rows.filter (owner · = t)).countP (fun r => p r && owner r = t) =
      rows.countP fun r => p r && owner r = t := by
  rw [List.countP_eq_length_filter, List.countP_eq_length_filter, filter_own]

end Statements

section Queries

variable {sv : Server} {t : String} {turns : Nat → Turn} {db : DB}

abbrev drawn (turns : Nat → Turn) (n : Nat) : UUID := (turns n).id

/-- What is done for a tenant, where its UUIDs are not used by others, stays in its rows. -/
abbrev Stays {α : Type} (t : String) (turns : Nat → Turn) (f : DB → α × DB) (db : DB) : Prop :=
  Confined ownRows (Unused t (drawn turns)) t f db

theorem reportRow_some {report : CBOMReport} {turn : Turn} {row : ReportRow}
    (h : reportRow sv report turn = some row) :
    row.tenantID = report.tenantID ∧ row.id = turn.id := by
  unfold reportRow at h
  split at h
  · simp only [Option.bind_eq_some_iff, Option.map_eq_some_iff] at h
    obtain ⟨bom, -, metadata, -, rfl⟩ := h
    exact ⟨rfl, rfl⟩
  · cases h

theorem eventRow_some {event : SecurityEvent} {turn : Turn} {row : EventRow}
    (h : eventRow sv event turn = some row) :
    row.tenantID = event.tenantID ∧ row.id = turn.id := by
  unfold eventRow at h
  split at h
  · obtain ⟨metadata, -, rfl⟩ := Option.map_eq_some_iff.mp h
    exact ⟨rfl, rfl⟩
  · cases h

theorem clusterRow_some {cluster : KubernetesCluster} {turn : Turn} {row : ClusterRow}
    (h : clusterRow sv cluster turn = some row) :
    row.tenantID = cluster.tenantID ∧ row.id = turn.id := by
  unfold clusterRow at h
  split at h
  · obtain ⟨metadata, -, rfl⟩ := Option.map_eq_some_iff.mp h
    exact ⟨rfl, rfl⟩
  · cases h

variable (sv) in
theorem stays_createCBOMReport (report : CBOMReport) (htenant : report.tenantID = t) (n : Nat) :
    Stays t turns (createCBOMReport sv report (turns n)) db := by
  refine confined_insert _ (fun hC row hrow => ?_) fun row hrow db' hdb' s hs => ?_
  · obtain ⟨howner, hid⟩ := reportRow_some hrow
    exact ownRows_insertReport (howner.trans htenant) fun q hq h => (hC n).1 q hq (h.trans hid)
  · obtain ⟨howner, -⟩ := reportRow_some hrow
    exact others_insertReport hdb' (howner.trans htenant ▸ hs)

variable (sv) in
theorem stays_createSecurityEvent (event : SecurityEvent) (htenant : event.tenantID = t) (n : Nat) :
    Stays t turns (createSecurityEvent sv event (turns n)) db := by
  refine confined_insert _ (fun hC row hrow => ?_) fun row hrow db' hdb' s hs => ?_
  · obtain ⟨howner, hid⟩ := eventRow_some hrow
    exact ownRows_insertEvent (howner.trans htenant) fun q hq h => (hC n).2.1 q hq (h.trans hid)
  · obtain ⟨howner, -⟩ := eventRow_some hrow
    exact others_insertEvent hdb' (howner.trans htenant ▸ hs)

variable (sv) in
theorem stays_createKubernetesCluster (cluster : KubernetesCluster)
    (htenant : cluster.tenantID = t) (n : Nat) :
    Stays t turns (createKubernetesCluster sv cluster (turns n)) db := by
  refine confined_insert _ (fun hC row hrow => ?_) fun row hrow db' hdb' s hs => ?_
  · obtain ⟨howner, hid⟩ := clusterRow_some hrow
    exact ownRows_insertCluster (howner.trans htenant) fun q hq h => (hC n).2.2 q hq (h.trans hid)
  · obtain ⟨howner, -⟩ := clusterRow_some hrow
    exact others_insertCluster hdb' (howner.trans htenant ▸ hs)

variable (sv t db) (turn : Turn)

theorem getCBOMReport_own (id : String) :
    getCBOMReport sv t id turn db = getCBOMReport sv t id turn (ownRows t db) := by
  refine congrArg orNotFound (queryRow_own ?_)
  simp only [find?_own db.reports]
  rfl

theorem getCryptoAsset_own (id : String) :
    getCryptoAsset sv t id turn db = getCryptoAsset sv t id turn (ownRows t db) := by
  refine congrArg orNotFound (queryRow_own ?_)
  simp only [find?_own db.assets]
  rfl

theorem listCBOMReports_own (limit offset : Nat) :
    listCBOMReports sv t limit offset turn db =
      listCBOMReports sv t limit offset turn (ownRows t db) := by
  refine queryRows_own ?_
  simp only [ownRows, List.filter_filter, Bool.and_self]

theorem listSecurityEvents_own (limit offset : Nat) :
    listSecurityEvents sv t limit offset turn db =
      listSecurityEvents sv t limit offset turn (ownRows t db) := by
  refine queryRows_own ?_
  simp only [ownRows, List.filter_filter, Bool.and_self]

theorem listKubernetesClusters_own (limit offset : Nat) :
    listKubernetesClusters sv t limit offset turn db =
      listKubernetesClusters sv t limit offset turn (ownRows t db) := by
  refine queryRows_own ?_
  simp only [ownRows, List.filter_filter, Bool.and_self]

theorem listCryptoAssets_own (cbomReportID : String) (limit offset : Nat) :
    listCryptoAssets sv t cbomReportID limit offset turn db =
      listCryptoAssets sv t cbomReportID limit offset turn (ownRows t db) := by
  refine queryRows_own ?_
  simp only [ownRows, filter_own db.assets]

/-- The assets under the reports of a tenant are its own. -/
theorem assetsOf_own : assetsOf t (ownRows t db) = assetsOf t db := by
  simp only [assetsOf, ownRows, List.filter_filter, List.any_filter]
  refine List.filter_congr fun a ha => ?_
  rw [Bool.eq_iff_iff]
  simp only [Bool.and_eq_true, List.any_eq_true, decide_eq_true_eq]
  constructor
  · rintro ⟨⟨r, hr, -, hid, htenant⟩, -⟩
    exact ⟨r, hr, hid, htenant⟩
  · rintro ⟨r, hr, hid, htenant⟩
    obtain ⟨q, hq, hqid, howner⟩ := db.assets_report a ha
    have hsame : q = r := List.inj_on_of_nodup_map db.reports_nodup hq hr (hqid.trans hid.symm)
    exact ⟨⟨r, hr, htenant, hid, htenant⟩, howner.symm.trans (hsame ▸ htenant)⟩

theorem getMetricsOverview_own :
    getMetricsOverview sv t turns db = getMetricsOverview sv t turns (ownRows t db) := by
  have hevents : (ownRows t db).events.countP (fun e =>
      e.tenantID = t && e.resolved = some false) = db.events.countP fun e =>
      e.tenantID = t && e.resolved = some false := by
    simp only [ownRows, List.countP_filter]
    refine List.countP_congr fun e _ => ?_
    by_cases h : e.tenantID = t <;> simp [h]
  simp only [getMetricsOverview, queryRow, queryRows, assetsOf_own, hevents]

theorem stays_updateCBOMReport (report : CBOMReport) :
    Stays t turns (updateCBOMReport sv t report turn) db := by
  have hp : ∀ (u : UUID) (r : ReportRow), (r.id = u && r.tenantID = t) = true → r.tenantID = t :=
    fun u r h => of_decide_eq_true (Bool.and_eq_true_iff.mp h).2
  refine confined_requireOneRow (confined_exec (fun _ => ?_) ?_)
  · split
    · cases sv.parseUUID report.id <;> cases sv.jsonb report.cyclonedxBOM <;>
        cases sv.jsonb report.metadata <;> try rfl
      simp only [Option.bind_some, Option.map_some, Prod.map_apply, id_eq, ownRows_updateReports]
      rw [← countP_own db.reports]
      rfl
    · rfl
  · intro x hx s hs
    rw [Option.mem_def, Option.ite_none_right_eq_some] at hx
    simp only [Option.bind_eq_some_iff, Option.map_eq_some_iff] at hx
    obtain ⟨-, u, -, bom, -, metadata, -, rfl⟩ := hx
    exact others_updateReports (hp u) hs

theorem stays_deleteCBOMReport (id : String) :
    Stays t turns (deleteCBOMReport sv t id turn) db := by
  have hp : ∀ (u : UUID) (r : ReportRow), (r.id = u && r.tenantID = t) = true → r.tenantID = t :=
    fun u r h => of_decide_eq_true (Bool.and_eq_true_iff.mp h).2
  refine confined_requireOneRow (confined_exec (fun _ => ?_) ?_)
  · split
    · cases sv.parseUUID id with
      | none => rfl
      | some u =>
        simp only [Option.map_some, Prod.map_apply, id_eq, ownRows_deleteReports (hp u)]
        rw [← countP_own db.reports]
        rfl
    · rfl
  · intro x hx s hs
    rw [Option.mem_def, Option.ite_none_right_eq_some] at hx
    simp only [Option.map_eq_some_iff] at hx
    obtain ⟨-, u, -, rfl⟩ := hx
    exact others_deleteReports (hp u) hs

theorem stays_updateCryptoAsset (asset : CryptoAsset) :
    Stays t turns (updateCryptoAsset sv t asset turn) db := by
  have hp : ∀ (u : UUID) (a : AssetRow), (a.id = u && a.tenantID = t) = true → a.tenantID = t :=
    fun u a h => of_decide_eq_true (Bool.and_eq_true_iff.mp h).2
  refine confined_requireOneRow (confined_exec (fun _ => ?_) ?_)
  · split
    · cases sv.parseUUID asset.id <;> cases sv.jsonb asset.metadata <;> try rfl
      simp only [Option.bind_some, Option.map_some, Prod.map_apply, id_eq, ownRows_updateAssets]
      rw [← countP_own db.assets]
      rfl
    · rfl
  · intro x hx s hs
    rw [Option.mem_def, Option.ite_none_right_eq_some] at hx
    simp only [Option.bind_eq_some_iff, Option.map_eq_some_iff] at hx
    obtain ⟨-, u, -, metadata, -, rfl⟩ := hx
    exact others_updateAssets (hp u) hs

end Queries

section Handlers

variable {sv : Server} {pr : Printer} {t : String} {turns : Nat → Turn} {db : DB}

/-- What is made of a result, or of an error. -/
def resultTo {α R : Type} (made : α → R) (failed : R) (result : Except QueryError α) : R :=
  result.casesOn (fun _ => failed) made

/-- What a handler makes of the result of a statement changes nothing. -/
theorem stays_reply {α : Type} {f : DB → Except QueryError α × DB} {h : DB → Response × DB}
    (hf : Stays t turns f db) (g : Except QueryError α → Response)
    (heq : ∀ db, h db = (g (f db).1, (f db).2)) : Stays t turns h db := by
  rw [funext heq]
  exact confined_map hf g

/-- First something is asked, and what is done then depends on the answer. -/
theorem stays_ask {Q R : Type} {h : DB → R × DB} (q : DB → Q) (hq : q db = q (ownRows t db))
    (g : Q → DB → R × DB) (heq : ∀ db, h db = g (q db) db) (hg : Stays t turns (g (q db)) db) :
    Stays t turns h db := by
  rw [funext heq]
  exact confined_ask hq hg

theorem stays_ensureTenant (turn : Turn) :
    Stays t turns (fun db => ((), ensureTenant sv t turn db)) db := by
  refine confined_map (confined_exec (fun _ => ?_) ?_) fun _ => ()
  · split
    · exact congrArg some (congrArg (Prod.mk ()) ownRows_insertTenant)
    · rfl
  · intro x hx s hs
    rw [Option.mem_def, Option.ite_none_right_eq_some, Option.some_inj] at hx
    obtain ⟨-, rfl⟩ := hx
    exact others_insertTenant hs

theorem Unused.step {α : Type} {f : DB → α × DB} (hf : Stays t turns f db)
    (h : Unused t (drawn turns) db) : Unused t (drawn turns) (f db).2 :=
  h.of_others hf.others

theorem stays_persistReport (scan : CompletedScan) :
    Stays t turns (fun db => persistReport sv pr t turns db scan) db := by
  simp only [persistReport, persistAssets_eq]
  refine stays_reply (stays_createCBOMReport sv (scanReport pr t scan) rfl 1)
    (resultTo (fun stored => .persisted (.ok stored.id)) (.persisted (.error ()))) fun db' => ?_
  rcases createCBOMReport sv (scanReport pr t scan) (turns 1) db' with ⟨e | stored, db''⟩ <;> rfl

theorem stays_persistCBOMScanResult (scan : CompletedScan) :
    Stays t turns (fun db => persistCBOMScanResult sv pr t turns db scan) db :=
  have hensure : Stays t turns (fun db => ((), ensureTenant sv t (turns 0) db)) db :=
    stays_ensureTenant (turns 0)
  confined_bind (f := fun db => ((), ensureTenant sv t (turns 0) db))
    (g := fun _ db => persistReport sv pr t turns db scan) hensure
    (Unused.step hensure) (stays_persistReport scan)

theorem eventExistsForSource_own (source threatID : String) (turn : Turn) :
    eventExistsForSource sv t source threatID turn db =
      eventExistsForSource sv t source threatID turn (ownRows t db) := by
  refine queryRow_own ?_
  have hany : ∀ p : EventRow → Bool, (db.events.any fun e => e.tenantID = t && p e) =
      (ownRows t db).events.any fun e => e.tenantID = t && p e := by
    intro p
    simp only [ownRows, List.any_filter]
    refine congrArg db.events.any (funext fun e => ?_)
    cases decide (e.tenantID = t) <;> rfl
  simp only [Bool.and_assoc, hany]

/-- Storing what was found asks and writes for one tenant, threat after threat. -/
theorem stays_persistThreatEvents (n : Nat) (ts : List Enterprise.Threats.ThreatDetection) :
    Stays t turns (fun db => ((), persistThreatEvents sv pr t turns n ts db)) db := by
  induction ts generalizing n db with
  | nil => exact confined_const ()
  | cons threat ts ih =>
    simp only [persistThreatEvents]
    split
    · exact ih n
    · have hcreate : Stays t turns
          (createSecurityEvent sv (threatEvent pr t threat) (turns (n + 1))) db :=
        stays_createSecurityEvent sv (threatEvent pr t threat) rfl (n + 1)
      refine stays_ask (eventExistsForSource sv t threat.source threat.id (turns n))
        (eventExistsForSource_own threat.source threat.id (turns n)) (fun found db => ((),
          let known := persistThreatEvents sv pr t turns (n + 1) ts db
          let stored := createSecurityEvent sv (threatEvent pr t threat) (turns (n + 1)) db
          resultTo (fun isKnown => cond isKnown known (resultTo
            (fun _ => persistThreatEvents sv pr t turns (n + 2) ts stored.2) stored.2 stored.1))
            known found)) (fun db => ?_) ?_
      · rcases eventExistsForSource sv t threat.source threat.id (turns n) db with e | _ | _
        · rfl
        · rcases createSecurityEvent sv (threatEvent pr t threat) (turns (n + 1)) db with
            ⟨_ | _, _⟩ <;> rfl
        · rfl
      rcases eventExistsForSource sv t threat.source threat.id (turns n) db with e | _ | _
      · exact ih (n + 1)
      · refine confined_bind (g := fun stored db => ((), resultTo
          (fun _ => persistThreatEvents sv pr t turns (n + 2) ts db) db stored)) hcreate
          (Unused.step hcreate) ?_
        cases (createSecurityEvent sv (threatEvent pr t threat) (turns (n + 1)) db).1 with
        | error e => exact confined_const ()
        | ok stored => exact ih (n + 2)
      · exact ih (n + 1)

theorem analyzeThreats_own (now : Time) (turn : Turn) :
    analyzeThreats sv t now turn db = analyzeThreats sv t now turn (ownRows t db) := by
  have hinventory : queryCryptoAssets sv t turn db = queryCryptoAssets sv t turn (ownRows t db) :=
    queryRow_own (by rw [assetsOf_own])
  rw [analyzeThreats, analyzeThreats, hinventory]

theorem stays_performMLSecurityScan (now : Time) :
    Stays t turns (fun db => performMLSecurityScan sv pr t turns db now) db := by
  refine stays_ask (analyzeThreats sv t now (turns 0)) (analyzeThreats_own now (turns 0))
    (fun found db => resultTo
      (fun analysis => (.mlScan analysis ("ml-scan-" ++ toString (Enterprise.Threats.unix now)),
        persistThreatEvents sv pr t turns 1 analysis.threats db))
      (.error 500 "ML security scan failed", db) found) (fun db => ?_) ?_
  · rw [performMLSecurityScan]
    cases analyzeThreats sv t now (turns 0) db <;> rfl
  cases analyzeThreats sv t now (turns 0) db with
  | error e => exact confined_const _
  | ok analysis => exact confined_map (stays_persistThreatEvents 1 analysis.threats) fun _ => _

/-- An event that is resolved for a tenant is its own. -/
def ResolvesOwn (sv : Server) (t id : String) (db : DB) : Prop :=
  ∀ u ∈ sv.parseUUID id, ∀ e ∈ db.events, e.id = u → e.tenantID = t

theorem stays_resolveSecurityEvent {id : String} (h : ResolvesOwn sv t id db) :
    Stays t turns (fun db => resolveSecurityEvent sv turns db id) db := by
  have hexec : Stays t turns (fun db => resolveEvent sv db id (turns 0)) db := by
    refine confined_exec (fun _ => ?_) ?_
    · cases hu : sv.parseUUID id with
      | none => rfl
      | some u =>
        have hcount : (ownRows t db).events.countP (·.id = u) = db.events.countP (·.id = u) := by
          simp only [ownRows, List.countP_filter]
          refine List.countP_congr fun e he => ?_
          simp only [Bool.and_eq_true, decide_eq_true_eq, and_iff_left_iff_imp]
          exact h u hu e he
        simp only [Option.map_some, Prod.map_apply, id_eq, ownRows_resolveEvents, hcount]
    · intro x hx s hs
      obtain ⟨u, hu, rfl⟩ := Option.map_eq_some_iff.mp hx
      refine DB.ext rfl rfl rfl ((filter_updateWhere_eq_self fun _ => by rfl).mpr ?_) rfl
      intro e he hid howner
      simp only [decide_eq_true_eq] at hid howner
      exact absurd (howner.symm.trans (h u hu e he hid)) hs
  refine stays_reply hexec (resultTo
    (fun n : Nat => if n = 0 then .error 404 "event not found" else .resolved id)
    (.error 500 "failed to resolve event")) fun db => ?_
  simp only [resolveSecurityEvent]
  rcases resolveEvent sv db id (turns 0) with ⟨_ | _ | _, _⟩ <;> rfl

theorem stays_updateReport (id : String) (body : Except String Shared.Handlers.ReportUpdate) :
    Stays t turns (fun db => Shared.Handlers.updateCBOMReport sv t turns db id body) db := by
  refine stays_ask (getCBOMReport sv t id (turns 0)) (getCBOMReport_own sv t db (turns 0) id)
    (fun found db => resultTo (fun _ => Shared.Handlers.changeReport sv t turns db id body)
      (.error 404 "report not found", db) found) (fun db => ?_) ?_
  · rw [Shared.Handlers.updateCBOMReport]
    cases getCBOMReport sv t id (turns 0) db <;> rfl
  rcases getCBOMReport sv t id (turns 0) db with e | report
  · exact confined_const _
  · cases body with
    | error e => exact confined_const _
    | ok body =>
      refine stays_reply (stays_updateCBOMReport sv t db (turns 1)
        { id, name := body.name, version := body.version, status := body.status })
        (resultTo (fun _ => .updated id) (.error 500 "failed to update")) fun db => ?_
      simp only [Shared.Handlers.changeReport]
      rcases updateCBOMReport sv t _ (turns 1) db with ⟨_ | _, _⟩ <;> rfl

theorem stays_deleteReport (id : String) :
    Stays t turns (fun db => Shared.Handlers.deleteCBOMReport sv t turns db id) db := by
  refine stays_ask (getCBOMReport sv t id (turns 0)) (getCBOMReport_own sv t db (turns 0) id)
    (fun found db => resultTo
      (fun _ =>
        let gone := deleteCBOMReport sv t id (turns 1) db
        (resultTo (fun _ => .deleted id) (.error 500 "failed to delete") gone.1, gone.2))
      (.error 404 "report not found", db) found) (fun db => ?_) ?_
  · rw [Shared.Handlers.deleteCBOMReport]
    cases getCBOMReport sv t id (turns 0) db with
    | error e => rfl
    | ok report => rcases deleteCBOMReport sv t id (turns 1) db with ⟨_ | _, _⟩ <;> rfl
  rcases getCBOMReport sv t id (turns 0) db with e | report
  · exact confined_const _
  · refine stays_reply (stays_deleteCBOMReport sv t db (turns 1) id)
      (resultTo (fun _ => .deleted id) (.error 500 "failed to delete")) fun db => ?_
    rcases deleteCBOMReport sv t id (turns 1) db with ⟨_ | _, _⟩ <;> rfl

theorem stays_updateAsset (id : String) (body : Except String Shared.Handlers.AssetUpdate) :
    Stays t turns (fun db => Shared.Handlers.updateCryptoAsset sv t turns db id body) db := by
  cases body with
  | error e => exact confined_const _
  | ok body =>
    refine stays_reply (stays_updateCryptoAsset sv t db (turns 0)
      { id, algorithm := body.algorithm, keySize := body.keySize
        vulnerabilityScore := body.vulnerabilityScore, quantumSafe := body.quantumSafe })
      (resultTo (fun _ => .updated id) (.error 500 "failed to update")) fun db => ?_
    simp only [Shared.Handlers.updateCryptoAsset]
    rcases updateCryptoAsset sv t _ (turns 0) db with ⟨_ | _, _⟩ <;> rfl

end Handlers

section Calls

variable {sv : Server} {pr : Printer} {db : DB} {c : Call}

/-- No UUID that a call draws is that of a row of another tenant, and no event of another tenant
is resolved. -/
def Apart (sv : Server) (db : DB) (c : Call) : Prop :=
  Unused c.tenant (drawn c.turns) db ∧
    ∀ id, c.request = .resolveSecurityEvent id → ResolvesOwn sv c.tenant id db

/-- Whatever a tenant asks for is answered from its rows, and done to them. -/
theorem stays_step
    (h : ∀ id, c.request = .resolveSecurityEvent id → ResolvesOwn sv c.tenant id db) :
    Stays c.tenant c.turns (fun db => step sv pr db c) db := by
  obtain ⟨tenantID, request, now, turns⟩ := c
  generalize ht : Call.tenant ⟨tenantID, request, now, turns⟩ = t at h
  simp only [step, ht]
  cases request with
  | createCBOMReport body =>
    cases body with
    | error e => exact confined_const _
    | ok body =>
      refine stays_reply (stays_createCBOMReport sv (pendingReport t body) rfl 0)
        (resultTo .created (.error 500 "failed to create report")) fun db => ?_
      simp only [Shared.Handlers.createCBOMReport]
      rcases createCBOMReport sv (pendingReport t body) (turns 0) db with ⟨_ | _, _⟩ <;> rfl
  | listCBOMReports =>
    exact confined_read (by rw [Shared.Handlers.listCBOMReports, listCBOMReports_own]; rfl)
  | getCBOMReport id =>
    exact confined_read (by rw [Shared.Handlers.getCBOMReport, getCBOMReport_own]; rfl)
  | updateCBOMReport id body => exact stays_updateReport id body
  | deleteCBOMReport id => exact stays_deleteReport id
  | listCryptoAssets cbomReportID reportID =>
    refine confined_read ?_
    simp only [Shared.Handlers.listCryptoAssets]
    rw [listCryptoAssets_own]
  | getCryptoAsset id =>
    exact confined_read (by rw [Shared.Handlers.getCryptoAsset, getCryptoAsset_own]; rfl)
  | updateCryptoAsset id body => exact stays_updateAsset id body
  | listSecurityEvents =>
    exact confined_read (by rw [Shared.Handlers.listSecurityEvents, listSecurityEvents_own]; rfl)
  | createSecurityEvent body =>
    cases body with
    | error e => exact confined_const _
    | ok body =>
      refine stays_reply (stays_createSecurityEvent sv (newEvent t body) rfl 0)
        (resultTo .event (.error 500 "failed to create event")) fun db => ?_
      simp only [Shared.Handlers.createSecurityEvent]
      rcases createSecurityEvent sv (newEvent t body) (turns 0) db with ⟨_ | _, _⟩ <;> rfl
  | resolveSecurityEvent id => exact stays_resolveSecurityEvent (h id rfl)
  | getDashboardOverview =>
    exact confined_read (by rw [Shared.Handlers.getDashboardOverview, getMetricsOverview_own]; rfl)
  | getMetrics =>
    exact confined_read (by rw [Shared.Handlers.getMetrics, getMetricsOverview_own]; rfl)
  | getComplianceStatus =>
    exact confined_read (by rw [Shared.Handlers.getComplianceStatus, getMetricsOverview_own]; rfl)
  | getMetricsOverview =>
    exact confined_read (by rw [Shared.Handlers.getMetricsOverview, getMetricsOverview_own]; rfl)
  | listKubernetesClusters =>
    exact confined_read
      (by rw [Shared.Handlers.listKubernetesClusters, listKubernetesClusters_own]; rfl)
  | addKubernetesCluster body =>
    cases body with
    | error e => exact confined_const _
    | ok body =>
      refine stays_reply (stays_createKubernetesCluster sv (newCluster t body) rfl 0)
        (resultTo .cluster (.error 500 "failed to add cluster")) fun db => ?_
      simp only [Shared.Handlers.addKubernetesCluster]
      rcases createKubernetesCluster sv (newCluster t body) (turns 0) db with ⟨_ | _, _⟩ <;> rfl
  | getClusterStatus id => exact confined_const _
  | persistCBOMScanResult scan => exact stays_persistCBOMScanResult scan
  | getThreatIntelligence =>
    exact confined_read (by rw [Shared.Handlers.getThreatIntelligence, analyzeThreats_own]; rfl)
  | performMLSecurityScan => exact stays_performMLSecurityScan now

theorem confined_step (h : Apart sv db c) :
    Confined ownRows (Apart sv · c) c.tenant (fun db => step sv pr db c) db :=
  have hstep := stays_step h.2
  ⟨fun h => hstep.reply h.1, fun h => hstep.own h.1, hstep.others⟩

/-- A tenant gets the replies, and has in the end the rows, that it would without the others,
wherever no UUID is drawn that another one's row has and only own events are resolved. -/
theorem tenant_alone (sv : Server) (pr : Printer) (db : DB) (calls : List Call) (t : String)
    (h : Along (step sv pr) (Apart sv) db calls) :
    repliesTo (step sv pr) Call.tenant t db calls =
        (trace (step sv pr) (ownRows t db) (calls.filter (·.tenant = t))).map Prod.fst ∧
      ownRows t (after (step sv pr) db calls) =
        after (step sv pr) (ownRows t db) (calls.filter (·.tenant = t)) :=
  repliesTo_alone (C := fun c db => Apart sv db c) (fun _ _ h => confined_step h) h t

/-- A server that reads one UUID. -/
def server : Server where
  parseUUID s := if s = "00000000-0000-0000-0000-00000000000b" then some 11 else none
  uuidText _ := "00000000-0000-0000-0000-00000000000b"
  jsonb s := if s = "" then none else some s
  text _ := true

def printer : Printer where
  quote s := "\"" ++ s ++ "\""
  threatMetadata t := "\x7b\"threat_id\":\"" ++ t.id ++ "\"\x7d"

def openEvent : EventRow where
  id := 11
  tenantID := "a"
  eventType := "weak_key"
  severity := "high"
  source := "scanner"
  description := none
  metadata := some "\x7b\x7d"
  resolved := some false
  createdAt := 1
  updatedAt := 1

theorem no_assets : ∀ a ∈ ([] : List AssetRow), ∃ r ∈ ([] : List ReportRow),
    r.id = a.cbomReportID ∧ r.tenantID = a.tenantID := List.forall_mem_nil _

/-- Two tenants, and an event of the first. -/
def shared : DB where
  tenants := ["a", "b"]
  reports := []
  assets := []
  events := [openEvent]
  clusters := []
  reports_nodup := List.nodup_nil
  assets_nodup := List.nodup_nil
  events_nodup := List.nodup_singleton _
  clusters_nodup := List.nodup_nil
  reports_tenant := List.forall_mem_nil _
  assets_report := no_assets
  events_tenant := List.forall_mem_singleton.mpr List.mem_cons_self
  clusters_tenant := List.forall_mem_nil _

def quarterly : Shared.Handlers.NewReport where
  name := "quarterly"
  version := "1.0"
  cyclonedxBOM := ""
  metadata := ""
  name_ne := by decide
  version_ne := by decide

/-- The second tenant stores a report. -/
def storing : Call where
  tenantID := "b"
  request := .createCBOMReport (.ok quarterly)
  turns := fun _ => { id := 22, now := 5 }

/-- The first tenant resolves its event. -/
def resolving : Call where
  tenantID := "a"
  request := .resolveSecurityEvent "00000000-0000-0000-0000-00000000000b"
  turns := fun _ => { id := 23, now := 6 }

theorem tenant_alone_two :
    repliesTo (step server printer) Call.tenant "a" shared [storing, resolving] =
        (trace (step server printer) (ownRows "a" shared)
          ([storing, resolving].filter (·.tenant = "a"))).map Prod.fst ∧
      ownRows "a" (after (step server printer) shared [storing, resolving]) =
        after (step server printer) (ownRows "a" shared)
          ([storing, resolving].filter (·.tenant = "a")) := by
  have hstored : (∀ r ∈ (step server printer shared storing).2.reports,
        r.id = 23 → r.tenantID = resolving.tenant) ∧
      (∀ e ∈ (step server printer shared storing).2.events,
        e.id = 23 → e.tenantID = resolving.tenant) ∧
      (∀ c ∈ (step server printer shared storing).2.clusters,
        c.id = 23 → c.tenantID = resolving.tenant) ∧
      ∀ e ∈ (step server printer shared storing).2.events, e.tenantID = resolving.tenant := by
    decide +kernel
  obtain ⟨hreports, hevents, hclusters, hown⟩ := hstored
  refine tenant_alone server printer shared [storing, resolving] "a"
    ⟨⟨fun n => ?_, ?_⟩, ⟨fun n => ⟨hreports, hevents, hclusters⟩, ?_⟩, trivial⟩
  · exact ⟨by simp [shared], by simp [shared, openEvent, drawn, storing], by simp [shared]⟩
  · rintro id ⟨⟩
  · exact fun id _ u _ e he _ => hown e he

/-- A call changes no event of a tenant: what it resolves is another one's, or is so already. -/
def Harmless (sv : Server) (t : String) (db : DB) (c : Call) : Prop :=
  ∀ id, c.request = .resolveSecurityEvent id → (c.turns 0).fate ≠ .refused →
    ∀ u ∈ sv.parseUUID id, ∀ e ∈ db.events, e.id = u → e.tenantID = t →
      e.resolve (c.turns 0).now = e

theorem ownRows_resolveEvents_iff {t : String} {u : UUID} {now : Time} :
    ownRows t (db.resolveEvents (·.id = u) now) = ownRows t db ↔
      ∀ e ∈ db.events, e.id = u → e.tenantID = t → e.resolve now = e := by
  have hevents : (updateWhere (·.id = u) (EventRow.resolve now) db.events).filter
      (·.tenantID = t) = db.events.filter (·.tenantID = t) ↔
        ∀ e ∈ db.events, e.id = u → e.tenantID = t → e.resolve now = e := by
    rw [filter_updateWhere_eq_self fun _ => by rfl]
    simp only [decide_eq_true_eq]
  rw [← hevents]
  exact ⟨fun h => congrArg DB.events h, fun h => DB.ext rfl rfl rfl h rfl⟩

theorem ownRows_step_iff {t : String} (hne : c.tenant ≠ t) :
    ownRows t (step sv pr db c).2 = ownRows t db ↔ Harmless sv t db c := by
  by_cases hresolve : ∃ id, c.request = .resolveSecurityEvent id
  · obtain ⟨id, hid⟩ := hresolve
    have hdb : (step sv pr db c).2 = (resolveEvent sv db id (c.turns 0)).2 := by
      simp only [step, hid, resolveSecurityEvent_snd]
    rw [hdb]
    have hharmless : Harmless sv t db c ↔ ((c.turns 0).fate ≠ .refused →
        ∀ u ∈ sv.parseUUID id, ownRows t (db.resolveEvents (·.id = u) (c.turns 0).now) =
          ownRows t db) := by
      simp only [Harmless, hid, Request.resolveSecurityEvent.injEq, forall_eq',
        ownRows_resolveEvents_iff]
    rw [hharmless, resolveEvent, exec]
    cases hu : sv.parseUUID id <;> cases hfate : (c.turns 0).fate <;> simp
  · refine iff_of_true ((stays_step fun id hid => absurd ⟨id, hid⟩ hresolve).others t hne.symm) ?_
    exact fun id hid => absurd ⟨id, hid⟩ hresolve

/-- The rows of a tenant stay as they are while others call, in exactly the runs where none of
them resolves an event of the tenant. -/
theorem others_keep_iff (sv : Server) (pr : Printer) (db : DB) (calls : List Call) (t : String)
    (hothers : ∀ c ∈ calls, c.tenant ≠ t) :
    (∀ x ∈ trace (step sv pr) db calls, ownRows t x.2 = ownRows t db) ↔
      Along (step sv pr) (Harmless sv t) db calls := by
  rw [keeps_iff]
  exact along_congr_of_mem fun c hc db => ownRows_step_iff (hothers c hc)

theorem others_keep_two :
    (∀ x ∈ trace (step server printer) shared [storing], ownRows "a" x.2 = ownRows "a" shared) ↔
      Along (step server printer) (Harmless server "a") shared [storing] :=
  others_keep_iff server printer shared [storing] "a" (by decide +kernel)

end Calls

end RivicQ.Properties.OwnedRows
