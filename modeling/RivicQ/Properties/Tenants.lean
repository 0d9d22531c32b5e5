import RivicQ.Discovery.Scans
import RivicQ.Lib.Traces

namespace RivicQ.Properties.Tenants

open RivicQ.Lib.GoStrings RivicQ.Lib.Programs RivicQ.Lib.Tables RivicQ.Lib.Traces
open RivicQ.Lib.HostPorts RivicQ.Lib.Unwinding
open RivicQ.Discovery RivicQ.Discovery.Network
open RivicQ.Discovery.LocalPaths RivicQ.Discovery.Scans RivicQ.Discovery.Scans.ScanManager

variable {R : Type} {names : Names} {m : Machine}

section Keys

variable {t u a b : String}

theorem trimSpace_publicTenantID : trimSpace Tenant.publicTenantID = Tenant.publicTenantID := by
  decide

@[simp] theorem normalize_normalize (t : String) :
    Tenant.normalize (Tenant.normalize t) = Tenant.normalize t := by
  have hpublic : Tenant.normalize Tenant.publicTenantID = Tenant.publicTenantID := by
    rw [Tenant.normalize, trimSpace_publicTenantID, if_neg (by decide)]
  by_cases h : trimSpace t = ""
  · rw [Tenant.normalize.eq_1 t, if_pos h, hpublic]
  · rw [Tenant.normalize.eq_1 t, if_neg h, Tenant.normalize, trimSpace_trimSpace, if_neg h]

/-- The last slash of a key separates the tenant from the asset. -/
theorem cutLast_resultKey (ha : '/' ∉ a.toList) :
    cutLast (resultKey t a).toList '/' = some ((Tenant.normalize t).toList, a.toList) := by
  have hslash : "/".toList = ['/'] := rfl
  rw [resultKey, String.toList_append, String.toList_append, hslash, List.append_assoc,
    List.singleton_append, cutLast_append ha]

theorem resultKey_inj (ha : '/' ∉ a.toList) (hb : '/' ∉ b.toList) :
    resultKey t a = resultKey u b ↔ Tenant.normalize t = Tenant.normalize u ∧ a = b := by
  constructor
  · intro h
    have hparts := cutLast_resultKey (t := t) ha
    rw [h, cutLast_resultKey hb] at hparts
    obtain ⟨htenant, hasset⟩ := Prod.mk.inj (Option.some.inj hparts)
    exact ⟨(String.toList_inj.mp htenant).symm, (String.toList_inj.mp hasset).symm⟩
  · rintro ⟨h, rfl⟩
    rw [resultKey, resultKey, h]

end Keys

section Sections

variable {t id id' : String} {sm sm' : ScanManager R} {f : ScanJob R → ScanJob R}
  {job : ScanJob R} {updated : Time} {result : R} {persisted : Option (Except String String)}

/-- The job that a section writes to. -/
def touched : Event (Scanning R) → Option String
  | ⟨.store job, _⟩ => some job.id
  | ⟨.running id, _⟩ => some id
  | ⟨.progress id _, _⟩ => some id
  | ⟨.fail id _ _, _⟩ => some id
  | ⟨.complete id _ _, _⟩ => some id
  | _ => none

/-- The job that a section adds. -/
def stored : Event (Scanning R) → Option (ScanJob R)
  | ⟨.store job, _⟩ => some job
  | _ => none

/-- A write to a job that leaves it to its tenant, under its asset. -/
def Progresses (f : ScanJob R → ScanJob R) : Prop :=
  ∀ job, (f job).tenantID = job.tenantID ∧ (f job).assetID = job.assetID

/-- An answer on completion that names no asset with a slash. -/
def Slashless (persisted : Option (Except String String)) : Prop :=
  ∀ assetID, persisted = some (.ok assetID) → '/' ∉ assetID.toList

def SlashlessReply : Event (Scanning R) → Prop
  | ⟨.complete _ _ _, persisted⟩ => Slashless persisted
  | _ => True

/-- What a section does to the manager: nothing, or it stores a job, or it writes to one,
or completes one. -/
theorem apply_cases (names : Names) (e : Event (Scanning R)) :
    (∀ sm, apply names sm e = sm) ∨
    (∃ job, stored e = some job ∧ touched e = some job.id ∧
      ∀ sm, apply names sm e = { sm with jobs := sm.jobs.insert job.id job }) ∨
    (∃ id f, touched e = some id ∧ Progresses f ∧ ∀ sm, apply names sm e = sm.updateJob f id) ∨
    (∃ id updated result persisted, touched e = some id ∧
      (SlashlessReply e → Slashless persisted) ∧
      ∀ sm, apply names sm e = sm.complete names id updated result persisted) := by
  obtain ⟨o, r⟩ := e
  cases o with
  | validateTarget target => exact .inl fun _ => rfl
  | newUUID => exact .inl fun _ => rfl
  | now => exact .inl fun _ => rfl
  | scanAll targets => exact .inl fun _ => rfl
  | store job => exact .inr (.inl ⟨job, rfl, rfl, fun _ => rfl⟩)
  | running id =>
    exact .inr (.inr (.inl ⟨id, fun job => { job with status := .running, progress := 10 }, rfl,
      fun _ => ⟨rfl, rfl⟩, fun _ => rfl⟩))
  | progress id percent =>
    exact .inr (.inr (.inl ⟨id, fun job => { job with progress := percent }, rfl,
      fun _ => ⟨rfl, rfl⟩, fun _ => rfl⟩))
  | fail id updated message =>
    exact .inr (.inr (.inl ⟨id, fun job =>
      { job with updatedAt := updated, status := .failed, error := message, progress := 0 }, rfl,
      fun _ => ⟨rfl, rfl⟩, fun _ => rfl⟩))
  | complete id updated result =>
    exact .inr (.inr (.inr ⟨id, updated, result, r, rfl, fun h => h, fun _ => rfl⟩))

theorem getScan_updateJob : (sm.updateJob f id).getScan id' =
    if id' = id then (sm.getScan id).map f else sm.getScan id' := by
  unfold updateJob getScan
  cases hjob : sm.jobs.lookup id with
  | none =>
    split_ifs with h
    · rw [h, hjob, Option.map_none]
    · rfl
  | some job => exact lookup_insert_if sm.jobs id' id (f job)

theorem results_updateJob : (sm.updateJob f id).results = sm.results := by
  unfold updateJob
  cases sm.jobs.lookup id <;> rfl

theorem jobs_complete : (sm.complete names id updated result persisted).jobs =
    (sm.updateJob (completed names updated result persisted) id).jobs := by
  unfold complete updateJob
  cases sm.jobs.lookup id <;> rfl

theorem getScan_complete : (sm.complete names id updated result persisted).getScan id' =
    (sm.updateJob (completed names updated result persisted) id).getScan id' := by
  rw [getScan, jobs_complete, getScan]

/-- A completion is indexed under the tenant of its job. -/
theorem getResult_complete {assetID : String} (hjob : sm.getScan id = some job) :
    (sm.complete names id updated result persisted).getResultForTenant t assetID =
      if resultKey t assetID = resultKey job.tenantID (completedAsset names persisted job) then
        some result
      else sm.getResultForTenant t assetID := by
  rw [getScan] at hjob
  simp only [complete, hjob]
  exact lookup_insert_if sm.results _ _ result

theorem complete_of_none (hjob : sm.getScan id = none) :
    sm.complete names id updated result persisted = sm := by
  rw [getScan] at hjob
  simp only [complete, hjob]

theorem slashless_completedAsset (hjob : '/' ∉ job.assetID.toList) (h : Slashless persisted) :
    '/' ∉ (completedAsset names persisted job).toList := by
  have hkept : '/' ∉ (if job.assetID = "" then assetIDFor names job.target
      else job.assetID).toList := by
    split_ifs
    · exact names.slashless _
    · exact hjob
  match persisted, h with
  | none, _ => exact hkept
  | some (.error _), _ => exact hkept
  | some (.ok id), h =>
    by_cases hid : id = ""
    · simpa only [completedAsset, ne_eq, hid, not_true_eq_false, if_false] using hkept
    · simpa only [completedAsset, ne_eq, hid, not_false_eq_true, if_true] using h id rfl

end Sections

section Ownership

variable {s : Submission} {scans : List Submission} {es : List (Nat × Event (Scanning R))} {i : Nat}
  {e : Event (Scanning R)} {job : ScanJob R}

/-- The identifier that a request draws. -/
def drawn : Event (Scanning R) → Option String
  | ⟨.newUUID, id⟩ => some id
  | _ => none

/-- A scan writes only to jobs under an identifier it has drawn, and stores them for the
tenant who submitted it. -/
structure Rightful (tenantID : String) (before : List (Event (Scanning R)))
    (e : Event (Scanning R)) : Prop where
  touches : ∀ id, touched e = some id → ∃ d ∈ before, drawn d = some id
  stores : ∀ job, stored e = some job → job.tenantID = tenantID ∧ '/' ∉ job.assetID.toList

theorem lasting_rightful (t : String) (start : List (Event (Scanning R))) :
    Lasting fun before e => Rightful t (start ++ before) e := by
  intro earlier before e h
  refine ⟨fun id hid => ?_, h.stores⟩
  obtain ⟨d, hd, hdrawn⟩ := h.touches id hid
  refine ⟨d, ?_, hdrawn⟩
  simp only [List.mem_append] at hd ⊢
  tauto

theorem rightful_silent {t : String} {before : List (Event (Scanning R))} (h : touched e = none)
    (hstored : stored e = none) : Rightful t before e where
  touches id hid := by rw [h] at hid; cases hid
  stores job hjob := by rw [hstored] at hjob; cases hjob

/-- A drawn identifier gives the right to go on with its job. -/
theorem rightful_touch {t id : String} {before : List (Event (Scanning R))}
    (hdrawn : ∃ d ∈ before, drawn d = some id) (h : touched e = some id)
    (hstored : stored e = none) : Rightful t before e where
  touches id' hid := by
    rw [h] at hid
    cases hid
    exact hdrawn
  stores job hjob := by rw [hstored] at hjob; cases hjob

theorem rightful_executeScan {t : String} {start : List (Event (Scanning R))}
    (hdrawn : ∃ d ∈ start, drawn d = some job.id) :
    Always (fun before e => Rightful t (start ++ before) e) (executeScan m job) := by
  have hlast := lasting_rightful t start
  have htouch : ∀ e : Event (Scanning R), touched e = some job.id →
      stored e = none → Rightful t (start ++ []) e := by
    intro e he hstored
    rw [List.append_nil]
    exact rightful_touch hdrawn he hstored
  refine always_request hlast (fun r => htouch _ rfl rfl) fun _ => ?_
  refine always_request hlast (fun r => htouch _ rfl rfl) fun _ => ?_
  refine always_request hlast (fun r => rightful_silent rfl rfl) fun outcome => ?_
  refine always_request hlast (fun r => rightful_silent rfl rfl) fun updated => ?_
  cases outcome with
  | error message => exact always_request hlast (fun r => htouch _ rfl rfl) fun _ => always_pure
  | ok result => exact always_request hlast (fun r => htouch _ rfl rfl) fun _ => always_pure

theorem rightful_scan : Always (Rightful (Tenant.normalize s.tenantID)) (scan (R := R) names m s) := by
  refine always_next (fun r => rightful_silent rfl rfl) fun validated => ?_
  cases validated with
  | error e => exact always_pure
  | ok _ =>
    refine always_next (fun r => rightful_silent rfl rfl) fun id => ?_
    refine always_next (fun r => rightful_silent rfl rfl) fun created => ?_
    refine always_next (fun r => rightful_silent rfl rfl) fun updated => ?_
    refine always_next (fun r => ⟨?_, ?_⟩) fun _ => ?_
    · rintro id' ⟨⟩
      exact ⟨_, List.mem_cons_of_mem _ List.mem_cons_self, rfl⟩
    · rintro job ⟨⟩
      exact ⟨rfl, names.slashless _⟩
    · exact @rightful_executeScan R m _ _ [_, _, _, _, _]
        ⟨_, List.mem_cons_of_mem _ List.mem_cons_self, rfl⟩

variable (scans es)

/-- The tenant who submitted a scan. -/
def tenantOf (i : Nat) : Option String := scans[i]?.map fun s => Tenant.normalize s.tenantID

def Draws (i : Nat) (id : String) : Prop := ∃ d, (i, d) ∈ es ∧ drawn d = some id

/-- The identifiers that are drawn in a run. -/
def drawnIDs : List String := es.filterMap fun e => drawn e.2

/-- What a section does is done by the scan that drew the identifier of the job, for its
tenant. -/
structure Attributed (a : Nat × Event (Scanning R)) : Prop where
  mem : a ∈ es
  touches : ∀ id, touched a.2 = some id → Draws es a.1 id
  stores : ∀ job, stored a.2 = some job →
    tenantOf scans a.1 = some job.tenantID ∧ '/' ∉ job.assetID.toList

variable {scans es}

theorem attributed (hrun : Interleaves (scans.map (scan names m)) es) {a : Nat × Event (Scanning R)}
    (ha : a ∈ es) : Attributed scans es a := by
  obtain ⟨i, e⟩ := a
  obtain ⟨before, after, hes⟩ := List.append_of_mem ha
  obtain ⟨p, hp, _⟩ := hrun (i, e) ha
  rw [Option.mem_def, List.getElem?_map, Option.map_eq_some_iff] at hp
  obtain ⟨s, hs, _⟩ := hp
  have hright : Rightful (Tenant.normalize s.tenantID) (project i before) e := by
    have hrun' : Interleaves (scans.map (scan names m)) (before ++ (i, e) :: after) := hes ▸ hrun
    refine along_project (fun p hp => ?_) hrun'
    rw [List.getElem?_map, hs] at hp
    cases hp
    exact rightful_scan
  refine ⟨ha, fun id hid => ?_, fun job hjob => ?_⟩
  · obtain ⟨d, hd, hdrawn⟩ := hright.touches id hid
    refine ⟨d, ?_, hdrawn⟩
    rw [hes]
    exact List.mem_append_left _ (mem_project.mp hd)
  · obtain ⟨htenant, hasset⟩ := hright.stores job hjob
    exact ⟨by rw [tenantOf, hs, htenant]; rfl, hasset⟩

theorem draws_inj (hids : (drawnIDs es).Nodup) {i j : Nat} {id : String} (hi : Draws es i id)
    (hj : Draws es j id) : i = j := by
  obtain ⟨d, hd, hdrawn⟩ := hi
  obtain ⟨d', hd', hdrawn'⟩ := hj
  by_contra hne
  have hsymm : Std.Symm fun a b : Nat × Event (Scanning R) =>
      ∀ x, drawn a.2 = some x → ∀ y, drawn b.2 = some y → x ≠ y :=
    ⟨fun a b h x hx y hy => (h y hy x hx).symm⟩
  have hpair := List.pairwise_filterMap.mp hids
  exact hpair.forall hd hd' (mt (congrArg Prod.fst) hne) id hdrawn id hdrawn' rfl

/-- A job stands under an identifier that a scan of its tenant has drawn. -/
def Owned (scans : List Submission) (es : List (Nat × Event (Scanning R))) (sm : ScanManager R) :
    Prop :=
  ∀ id job, sm.getScan id = some job →
    (∃ i, Draws es i id ∧ tenantOf scans i = some job.tenantID) ∧ '/' ∉ job.assetID.toList

variable {a : Nat × Event (Scanning R)} {sm sm' : ScanManager R} {t id : String}

theorem tenantOf_normalized {u : String} (h : tenantOf scans i = some u) : Tenant.normalize u = u := by
  obtain ⟨s, _, rfl⟩ := Option.map_eq_some_iff.mp h
  exact normalize_normalize s.tenantID

theorem tenant_of_touched (hids : (drawnIDs es).Nodup) (hown : Owned scans es sm)
    (ha : Attributed scans es a) (hid : touched a.2 = some id) (hjob : sm.getScan id = some job) :
    tenantOf scans a.1 = some job.tenantID := by
  obtain ⟨⟨i, hi, htenant⟩, _⟩ := hown id job hjob
  rw [draws_inj hids (ha.touches id hid) hi, htenant]

/-- A write that leaves jobs to their tenants keeps the rest of the manager as it was. -/
theorem owned_updateJob {f : ScanJob R → ScanJob R} (hown : Owned scans es sm)
    (hf : ∀ job, sm.getScan id = some job →
      (f job).tenantID = job.tenantID ∧ '/' ∉ (f job).assetID.toList) :
    Owned scans es (sm.updateJob f id) := by
  intro id' job hjob
  rw [getScan_updateJob] at hjob
  split_ifs at hjob with h
  · obtain ⟨old, hold, rfl⟩ := Option.map_eq_some_iff.mp hjob
    obtain ⟨⟨i, hi, htenant⟩, _⟩ := hown id old hold
    obtain ⟨hkept, hasset⟩ := hf old hold
    exact ⟨⟨i, h ▸ hi, by rw [htenant, hkept]⟩, hasset⟩
  · exact hown id' job hjob

theorem owned_apply (hown : Owned scans es sm) (ha : Attributed scans es a)
    (hreply : SlashlessReply a.2) : Owned scans es (sm.apply names a.2) := by
  obtain hsilent | ⟨job, hjob, hid, happly⟩ | ⟨id, f, _, hf, happly⟩ |
    ⟨id, updated, result, persisted, _, hpersisted, happly⟩ := apply_cases names a.2
  · rwa [hsilent]
  · intro id' job' hjob'
    rw [happly, getScan, lookup_insert_if] at hjob'
    split_ifs at hjob' with h
    · cases hjob'
      obtain ⟨htenant, hasset⟩ := ha.stores job hjob
      exact ⟨⟨a.1, h ▸ ha.touches job.id hid, htenant⟩, hasset⟩
    · exact hown id' job' hjob'
  · rw [happly]
    refine owned_updateJob hown fun job hjob => ⟨(hf job).1, ?_⟩
    rw [(hf job).2]
    exact (hown id job hjob).2
  · intro id' job hjob
    rw [happly, getScan_complete] at hjob
    have hdone := owned_updateJob (f := completed names updated result persisted) hown
      fun old hold => ⟨rfl, slashless_completedAsset (hown id old hold).2 (hpersisted hreply)⟩
    exact hdone id' job hjob

end Ownership

section Views

variable {scans : List Submission} {es : List (Nat × Event (Scanning R))}
  {a : Nat × Event (Scanning R)} {sm sm' : ScanManager R} {t id : String} {job : ScanJob R}
  {f : ScanJob R → ScanJob R}

/-- Two managers that a tenant cannot tell apart. -/
structure Alike (t : String) (sm sm' : ScanManager R) : Prop where
  scans : ∀ id, sm.getScanForTenant t id = sm'.getScanForTenant t id
  results : ∀ assetID, '/' ∉ assetID.toList →
    sm.getResultForTenant t assetID = sm'.getResultForTenant t assetID

/-- The list of a tenant's scans holds what the lookups find. -/
theorem Alike.list (h : Alike t sm sm') : sm.listScansForTenant t = sm'.listScansForTenant t :=
  Multiset.coe_eq_coe.mpr (values_filter_perm h.scans)

theorem getScanForTenant_updateJob (hf : ∀ job, (f job).tenantID = job.tenantID) {id' : String} :
    (sm.updateJob f id).getScanForTenant t id' =
      if id' = id then (sm.getScanForTenant t id).map f else sm.getScanForTenant t id' := by
  simp only [getScanForTenant, getScan_updateJob]
  split_ifs
  · cases sm.getScan id with
    | none => rfl
    | some job => simp only [Option.map_some, Option.filter_some, hf]; split_ifs <;> rfl
  · rfl

theorem getScanForTenant_of_own (hjob : sm.getScan id = some job)
    (h : Tenant.normalize job.tenantID = Tenant.normalize t) : sm.getScanForTenant t id = some job := by
  rw [getScanForTenant, hjob, Option.filter_some, if_pos (by simpa using h)]

theorem getScanForTenant_of_other
    (h : ∀ job, sm.getScan id = some job → Tenant.normalize job.tenantID ≠ Tenant.normalize t) :
    sm.getScanForTenant t id = none := by
  rw [getScanForTenant, Option.filter_eq_none_iff]
  intro job hjob
  simpa using h job hjob

theorem getScanForTenant_complete {updated : Time} {result : R} {id' : String}
    {persisted : Option (Except String String)} :
    (sm.complete names id updated result persisted).getScanForTenant t id' =
      if id' = id then
        (sm.getScanForTenant t id).map (completed names updated result persisted)
      else sm.getScanForTenant t id' := by
  rw [← getScanForTenant_updateJob (f := completed names updated result persisted) fun _ => rfl]
  simp only [getScanForTenant, getScan_complete]

theorem getScanForTenant_store {id' : String} :
    getScanForTenant t id' { sm with jobs := sm.jobs.insert job.id job } =
      if id' = job.id then (some job).filter fun job => Tenant.normalize job.tenantID = Tenant.normalize t
      else sm.getScanForTenant t id' := by
  simp only [getScanForTenant, getScan, lookup_insert_if]
  split_ifs <;> rfl

/-- What the tenant's own sections do, they do alike in managers the tenant cannot
tell apart. -/
theorem alike_own (hids : (drawnIDs es).Nodup) (ha : Attributed scans es a)
    (hmine : tenantOf scans a.1 = some (Tenant.normalize t)) (hown : Owned scans es sm)
    (hown' : Owned scans es sm') (h : Alike t sm sm') :
    Alike t (sm.apply names a.2) (sm'.apply names a.2) := by
  have hfound : ∀ sm, Owned scans es sm → ∀ id, touched a.2 = some id →
      sm.getScanForTenant t id = sm.getScan id := by
    intro sm hown id hid
    cases hjob : sm.getScan id with
    | none => rw [getScanForTenant, hjob, Option.filter_none]
    | some job =>
      have htenant := tenant_of_touched hids hown ha hid hjob
      rw [hmine, Option.some.injEq] at htenant
      exact getScanForTenant_of_own hjob (by rw [← htenant, normalize_normalize])
  obtain hsilent | ⟨job, hjob, hid, happly⟩ | ⟨id, f, hid, hf, happly⟩ |
    ⟨id, updated, result, persisted, hid, hpersisted, happly⟩ := apply_cases names a.2
  · rwa [hsilent, hsilent]
  · rw [happly, happly]
    refine ⟨fun id' => ?_, h.results⟩
    rw [getScanForTenant_store, getScanForTenant_store, h.scans id']
  · rw [happly, happly]
    refine ⟨fun id' => ?_, fun assetID hasset => ?_⟩
    · rw [getScanForTenant_updateJob fun job => (hf job).1,
        getScanForTenant_updateJob fun job => (hf job).1, h.scans id, h.scans id']
    · rw [getResultForTenant, getResultForTenant, results_updateJob, results_updateJob]
      exact h.results assetID hasset
  · have hsame : sm.getScan id = sm'.getScan id := by
      rw [← hfound sm hown id hid, ← hfound sm' hown' id hid, h.scans id]
    rw [happly, happly]
    refine ⟨fun id' => ?_, fun assetID hasset => ?_⟩
    · rw [getScanForTenant_complete, getScanForTenant_complete, h.scans id, h.scans id']
    · cases hjob : sm.getScan id with
      | none =>
        rw [complete_of_none hjob, complete_of_none (hsame ▸ hjob)]
        exact h.results assetID hasset
      | some job =>
        rw [getResult_complete hjob, getResult_complete (hsame ▸ hjob), h.results assetID hasset]

/-- The sections of other tenants change nothing that the tenant can see. -/
theorem alike_other (hids : (drawnIDs es).Nodup) (ha : Attributed scans es a)
    (hreply : SlashlessReply a.2) (hmine : tenantOf scans a.1 ≠ some (Tenant.normalize t))
    (hown : Owned scans es sm) (h : Alike t sm sm') : Alike t (sm.apply names a.2) sm' := by
  have hforeign : ∀ id job, touched a.2 = some id → sm.getScan id = some job →
      Tenant.normalize job.tenantID ≠ Tenant.normalize t := by
    intro id job hid hjob heq
    have htenant := tenant_of_touched hids hown ha hid hjob
    rw [tenantOf_normalized htenant] at heq
    exact hmine (heq ▸ htenant)
  have hunseen : ∀ id, touched a.2 = some id → sm.getScanForTenant t id = none := fun id hid =>
    getScanForTenant_of_other fun job hjob => hforeign id job hid hjob
  suffices hkept : Alike t (sm.apply names a.2) sm from
    ⟨fun id => (hkept.scans id).trans (h.scans id),
      fun assetID hasset => (hkept.results assetID hasset).trans (h.results assetID hasset)⟩
  obtain hsilent | ⟨job, hjob, hid, happly⟩ | ⟨id, f, hid, hf, happly⟩ |
    ⟨id, updated, result, persisted, hid, hpersisted, happly⟩ := apply_cases names a.2
  · rw [hsilent]
    exact ⟨fun _ => rfl, fun _ _ => rfl⟩
  · obtain ⟨htenant, _⟩ := ha.stores job hjob
    have hforeignJob : Tenant.normalize job.tenantID ≠ Tenant.normalize t := by
      rw [tenantOf_normalized htenant]
      exact fun heq => hmine (heq ▸ htenant)
    rw [happly]
    refine ⟨fun id' => ?_, fun _ _ => rfl⟩
    rw [getScanForTenant_store]
    split_ifs with h
    · rw [Option.filter_some, if_neg (by simpa using hforeignJob), h, hunseen job.id hid]
    · rfl
  · rw [happly]
    refine ⟨fun id' => ?_, fun assetID _ => ?_⟩
    · rw [getScanForTenant_updateJob fun job => (hf job).1, hunseen id hid]
      split_ifs with h
      · rw [h, hunseen id hid, Option.map_none]
      · rfl
    · rw [getResultForTenant, results_updateJob, getResultForTenant]
  · rw [happly]
    refine ⟨fun id' => ?_, fun assetID hasset => ?_⟩
    · rw [getScanForTenant_complete, hunseen id hid]
      split_ifs with h
      · rw [h, hunseen id hid, Option.map_none]
      · rfl
    · cases hjob : sm.getScan id with
      | none => rw [complete_of_none hjob]
      | some job =>
        have hslash : '/' ∉ (completedAsset names persisted job).toList :=
          slashless_completedAsset (hown id job hjob).2 (hpersisted hreply)
        rw [getResult_complete hjob, if_neg]
        intro hkey
        exact hforeign id job hid hjob ((resultKey_inj hasset hslash).mp hkey).1.symm

end Views

variable {scans : List Submission} {es : List (Nat × Event (Scanning R))}

/-- A tenant's view of the scans unwinds along a run. -/
theorem unwinds (hids : (drawnIDs es).Nodup) (t : String) :
    Unwinds (fun sm (a : Nat × Event (Scanning R)) => sm.apply names a.2) (Owned scans es)
      (fun a => Attributed scans es a ∧ SlashlessReply a.2)
      (fun a => tenantOf scans a.1 = some (Tenant.normalize t)) (Alike t) where
  inv _ _ ha hown := owned_apply hown ha.1 ha.2
  own _ _ _ ha hmine hown hown' h := alike_own hids ha.1 hmine hown hown' h
  other _ _ _ ha hmine hown h := alike_other hids ha.1 ha.2 hmine hown h

theorem owned_empty : Owned scans es (ScanManager.empty : ScanManager R) := by
  intro id job hjob
  rw [getScan, ScanManager.empty, AList.lookup_empty] at hjob
  cases hjob

/-- The operations of a tenant in a run of all tenants' scans. -/
def operationsOf (scans : List Submission) (t : String) (es : List (Nat × Event (Scanning R))) :
    List (Nat × Event (Scanning R)) :=
  es.filter fun a => tenantOf scans a.1 = some (Tenant.normalize t)

/-- What a tenant can look up after a run of all tenants' scans is what the tenant's own
operations bring about. -/
theorem tenants_isolated (hrun : Interleaves (scans.map (scan names m)) es)
    (hids : (drawnIDs es).Nodup) (hreply : ∀ a ∈ es, SlashlessReply a.2) (t : String) :
    (∀ assetID, '/' ∉ assetID.toList →
      (after names es).getResultForTenant t assetID =
        (after names (operationsOf scans t es)).getResultForTenant t assetID) ∧
    (∀ id, (after names es).getScanForTenant t id =
      (after names (operationsOf scans t es)).getScanForTenant t id) ∧
    (after names es).listScansForTenant t =
      (after names (operationsOf scans t es)).listScansForTenant t := by
  have halike : Alike t (after names es) (after names (operationsOf scans t es)) :=
    (unwinds hids t).run (fun a ha => ⟨attributed hrun ha, hreply a ha⟩) owned_empty owned_empty
      ⟨fun _ => rfl, fun _ _ => rfl⟩
  exact ⟨halike.results, halike.scans, halike.list⟩

def uuids : Names where
  sha1 s := if s = "example.com" then "a5cf6e8e-4cfa-5f31-a804-6de6d1245e26" else ""
  slashless s := by split_ifs <;> decide

/-- Two tenants who have the same website scanned. -/
def submissions : List Submission :=
  [⟨"tenant-a", "example.com", "website"⟩, ⟨"tenant-b", "example.com", "website"⟩]

def pendingJob (tenantID id : String) : ScanJob Nat :=
  { id := id, assetID := assetIDFor uuids "example.com", target := "example.com"
    scanType := "website", status := .pending, progress := 0, createdAt := 0, updatedAt := 0
    tenantID := Tenant.normalize tenantID }

/-- A scan that comes to a result. -/
def scanned (tenantID id : String) (result : Nat) : List (Event (Scanning Nat)) :=
  [⟨.validateTarget "example.com", .ok ()⟩, ⟨.newUUID, id⟩, ⟨.now, (0 : Time)⟩, ⟨.now, (0 : Time)⟩,
    ⟨.store (pendingJob tenantID id), ()⟩, ⟨.running id, ()⟩, ⟨.progress id 30, ()⟩,
    ⟨.scanAll (Targets.buildTargets bare "example.com" "website"), .ok result⟩, ⟨.now, (1 : Time)⟩,
    ⟨.complete id 1 result, (none : Option (Except String String))⟩]

theorem runs_scanned (tenantID id : String) (result : Nat) :
    Runs (scan uuids bare ⟨tenantID, "example.com", "website"⟩) (scanned tenantID id result) () := by
  refine runs_request.mpr ⟨(.ok () : Except Err Unit), _, rfl, ?_⟩
  refine runs_request.mpr ⟨id, _, rfl, runs_request.mpr ⟨(0 : Time), _, rfl, ?_⟩⟩
  refine runs_request.mpr ⟨(0 : Time), _, rfl, runs_request.mpr ⟨(), _, rfl, ?_⟩⟩
  refine runs_request.mpr ⟨(), _, rfl, runs_request.mpr ⟨(), _, rfl, ?_⟩⟩
  refine runs_request.mpr ⟨(.ok result : Except String Nat), _, rfl, ?_⟩
  refine runs_request.mpr ⟨(1 : Time), _, rfl, ?_⟩
  exact runs_request.mpr ⟨(none : Option (Except String String)), [], rfl, .pure ()⟩

theorem slashlessReply_scanned (tenantID id : String) (result : Nat) :
    ∀ e ∈ scanned tenantID id result, SlashlessReply e := by
  simp [scanned, SlashlessReply, Slashless]

/-- The second scan goes on while the first one does. -/
def sideBySide : List (Nat × Event (Scanning Nat)) :=
  (List.zipWith (fun d e => [(0, d), (1, e)]) (scanned "tenant-a" "scan-1" 7)
    (scanned "tenant-b" "scan-2" 8)).flatten

/-- Each event is one of the first scan's or one of the second's. -/
theorem project_sideBySide {a : Nat × Event (Scanning Nat)} (ha : a ∈ sideBySide) :
    a.1 = 0 ∧ project a.1 sideBySide = scanned "tenant-a" "scan-1" 7 ∨
      a.1 = 1 ∧ project a.1 sideBySide = scanned "tenant-b" "scan-2" 8 := by
  have hindex : ∀ a ∈ sideBySide, a.1 = 0 ∨ a.1 = 1 := by decide
  obtain h | h := hindex a ha
  · exact .inl ⟨h, by rw [h]; rfl⟩
  · exact .inr ⟨h, by rw [h]; rfl⟩

theorem interleaves_sideBySide : Interleaves (submissions.map (scan uuids bare)) sideBySide := by
  intro a ha
  obtain ⟨h, hproject⟩ | ⟨h, hproject⟩ := project_sideBySide ha
  · refine ⟨_, by rw [h]; rfl, [], (), ?_⟩
    rw [hproject, List.append_nil]
    exact runs_scanned "tenant-a" "scan-1" 7
  · refine ⟨_, by rw [h]; rfl, [], (), ?_⟩
    rw [hproject, List.append_nil]
    exact runs_scanned "tenant-b" "scan-2" 8

theorem slashlessReply_sideBySide : ∀ a ∈ sideBySide, SlashlessReply a.2 := by
  intro a ha
  have hmem : a.2 ∈ project a.1 sideBySide := mem_project.mpr ha
  obtain ⟨_, hproject⟩ | ⟨_, hproject⟩ := project_sideBySide ha
  · exact slashlessReply_scanned _ _ _ _ (hproject ▸ hmem)
  · exact slashlessReply_scanned _ _ _ _ (hproject ▸ hmem)

theorem tenants_isolated_pair :
    (after uuids sideBySide).listScansForTenant "tenant-a" =
      (after uuids (operationsOf submissions "tenant-a" sideBySide)).listScansForTenant "tenant-a" :=
  (tenants_isolated interleaves_sideBySide (by decide) slashlessReply_sideBySide "tenant-a").2.2

end RivicQ.Properties.Tenants
