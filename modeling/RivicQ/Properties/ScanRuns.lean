import RivicQ.Properties.Tenants

namespace RivicQ.Properties.ScanRuns

open RivicQ.Lib.GoStrings RivicQ.Lib.Programs RivicQ.Lib.Tables RivicQ.Lib.Traces
open RivicQ.Lib.Unwinding
open RivicQ.Discovery RivicQ.Discovery.Network RivicQ.Discovery.LocalPaths
open RivicQ.Discovery.Scans RivicQ.Discovery.Scans.ScanManager RivicQ.Properties.Tenants

variable {R : Type} {names : Names} {m : Machine}

/-- The ways of the status of a job, where a job that is not known has none. -/
inductive Moves : Option Status → Option Status → Prop
  | stay (status : Option Status) : Moves status status
  | submit : Moves none (some .pending)
  | start : Moves (some .pending) (some .running)
  | complete : Moves (some .running) (some .completed)
  | fail : Moves (some .running) (some .failed)

def statusOf (id : String) (sm : ScanManager R) : Option Status := (sm.getScan id).map ScanJob.status

/-- When a request that writes to a job is made: what has become of the job by then. -/
def Due (before : List (Event (Scanning R))) (job : Option (ScanJob R)) : ScanRequest R → Prop
  | .store j => job = none ∧ j.status = .pending ∧ j.result = none
  | .running _ => job.map ScanJob.status = some .pending
  | .progress _ _ => job.map ScanJob.status = some .running
  | .fail _ _ message => job.map ScanJob.status = some .running ∧
      ∃ targets, ⟨.scanAll targets, .error message⟩ ∈ before
  | .complete _ _ _ => job.map ScanJob.status = some .running
  | _ => True

section Alone

/-- The manager after what one scan has done. -/
def alone (names : Names) (es : List (Event (Scanning R))) : ScanManager R :=
  es.foldl (fun sm e => sm.apply names e) empty

variable (names) {sm : ScanManager R} {id id' : String} {job : ScanJob R}

theorem getScan_store (r : (Scanning R).Reply (.store job)) :
    (sm.apply names ⟨.store job, r⟩).getScan id =
      if id = job.id then some job else sm.getScan id := lookup_insert_if _ _ _ _

theorem getScan_running (r : (Scanning R).Reply (ScanRequest.running id)) :
    (sm.apply names ⟨.running id, r⟩).getScan id' =
      if id' = id then
        (sm.getScan id).map fun job => { job with status := .running, progress := 10 }
      else sm.getScan id' := getScan_updateJob

theorem getScan_progress (percent : Nat)
    (r : (Scanning R).Reply (ScanRequest.progress id percent)) :
    (sm.apply names ⟨.progress id percent, r⟩).getScan id' =
      if id' = id then (sm.getScan id).map fun job => { job with progress := percent }
      else sm.getScan id' := getScan_updateJob

theorem getScan_fail (updated : Time) (message : String)
    (r : (Scanning R).Reply (ScanRequest.fail id updated message)) :
    (sm.apply names ⟨.fail id updated message, r⟩).getScan id' =
      if id' = id then (sm.getScan id).map fun job =>
        { job with updatedAt := updated, status := .failed, error := message, progress := 0 }
      else sm.getScan id' := getScan_updateJob

theorem getScan_completed (updated : Time) (result : R)
    (persisted : (Scanning R).Reply (ScanRequest.complete id updated result)) :
    (sm.apply names ⟨.complete id updated result, persisted⟩).getScan id' =
      if id' = id then (sm.getScan id).map (completed names updated result persisted)
      else sm.getScan id' := getScan_complete.trans getScan_updateJob

theorem getScan_empty : (empty : ScanManager R).getScan id = none := AList.lookup_empty _

/-- A scan writes to its job when it is due. -/
def Timely (names : Names) (before : List (Event (Scanning R))) (e : Event (Scanning R)) : Prop :=
  ∀ id, touched e = some id → Due before ((alone names before).getScan id) e.op

theorem timely_silent {before : List (Event (Scanning R))} {e : Event (Scanning R)}
    (h : touched e = none) : Timely names before e := by
  intro id hid
  rw [h] at hid
  cases hid

/-- What remains of a scan once its job is stored. -/
theorem timely_executeScan {start : List (Event (Scanning R))} {job : ScanJob R}
    (hjob : (alone names start).getScan job.id = some job) (hpending : job.status = .pending) :
    Always (fun before e => Timely names (start ++ before) e) (executeScan m job) := by
  have hstart : ∀ es, alone names (start ++ es) = es.foldl (fun sm e => sm.apply names e)
      (alone names start) := fun es => List.foldl_append
  refine always_next (fun r => ?_) fun running => ?_
  · rintro _ ⟨⟩
    rw [hstart]
    exact (congrArg (Option.map ScanJob.status) hjob).trans (congrArg some hpending)
  have hrunning : (((alone names start).apply names ⟨.running job.id, running⟩).getScan
      job.id).map ScanJob.status = some .running := by
    rw [getScan_running, if_pos rfl, hjob]
    rfl
  refine always_next (fun r => ?_) fun progress => ?_
  · rintro _ ⟨⟩
    rw [hstart]
    exact hrunning
  have hprogress : ((((alone names start).apply names ⟨.running job.id, running⟩).apply names
      ⟨.progress job.id 30, progress⟩).getScan job.id).map ScanJob.status = some .running := by
    rw [getScan_progress, if_pos rfl, getScan_running, if_pos rfl, hjob]
    rfl
  refine always_next (fun r => timely_silent names rfl) fun outcome => ?_
  refine always_next (fun r => timely_silent names rfl) fun updated => ?_
  cases outcome with
  | error message =>
    refine always_next (fun r => ?_) fun _ => always_pure
    rintro _ ⟨⟩
    rw [hstart]
    exact ⟨hprogress, _, List.mem_append_right _
      (List.mem_cons_of_mem _ (List.mem_cons_of_mem _ List.mem_cons_self))⟩
  | ok result =>
    refine always_next (fun r => ?_) fun _ => always_pure
    rintro _ ⟨⟩
    rw [hstart]
    exact hprogress

theorem timely_scan (s : Submission) : Always (Timely names) (scan (R := R) names m s) := by
  refine always_next (fun r => timely_silent names rfl) fun validated => ?_
  cases validated with
  | error e => exact always_pure
  | ok _ =>
    refine always_next (fun r => timely_silent names rfl) fun id => ?_
    refine always_next (fun r => timely_silent names rfl) fun created => ?_
    refine always_next (fun r => timely_silent names rfl) fun updated => ?_
    refine always_next (fun r => ?_) fun stored => ?_
    · rintro _ ⟨⟩
      exact ⟨getScan_empty, rfl, rfl⟩
    · exact @timely_executeScan R names m [_, _, _, _, _] _
        ((getScan_store names stored).trans (if_pos rfl)) rfl

end Alone

section Steps

variable {sm sm' : ScanManager R} {id : String} {job : ScanJob R} {e : Event (Scanning R)}
  {past : List (Event (Scanning R))}

/-- A section leaves a job alone that it does not write to. -/
theorem getScan_frame (h : touched e ≠ some id) :
    (sm.apply names e).getScan id = sm.getScan id := by
  obtain hsilent | ⟨job, -, hid, happly⟩ | ⟨id', f, hid, -, happly⟩ |
    ⟨id', updated, result, persisted, hid, -, happly⟩ := apply_cases names e
  · rw [hsilent]
  · have hne : id ≠ job.id := fun he => h (he ▸ hid)
    rw [happly, getScan, getScan, lookup_insert_if, if_neg hne]
  · have hne : id ≠ id' := fun he => h (he ▸ hid)
    rw [happly, getScan_updateJob, if_neg hne]
  · have hne : id ≠ id' := fun he => h (he ▸ hid)
    rw [happly, getScan_complete, getScan_updateJob, if_neg hne]

/-- What becomes of a job is a matter of the job. -/
theorem getScan_congr (h : sm.getScan id = sm'.getScan id) :
    (sm.apply names e).getScan id = (sm'.apply names e).getScan id := by
  obtain hsilent | ⟨job, -, -, happly⟩ | ⟨id', f, -, -, happly⟩ |
    ⟨id', updated, result, persisted, -, -, happly⟩ := apply_cases names e
  · rw [hsilent, hsilent, h]
  · rw [happly, happly, getScan, getScan, lookup_insert_if, lookup_insert_if]
    exact if_congr Iff.rfl rfl h
  · rw [happly, happly, getScan_updateJob, getScan_updateJob]
    split_ifs with hid
    · rw [← hid, h]
    · exact h
  · rw [happly, happly, getScan_complete, getScan_complete, getScan_updateJob, getScan_updateJob]
    split_ifs with hid
    · rw [← hid, h]
    · exact h

/-- What a job is like in each of its states. -/
structure Settled (job : ScanJob R) : Prop where
  completed : job.status = .completed → job.progress = 100 ∧ ∃ result, job.result = some result
  failed : job.status = .failed → job.error ≠ ""
  unfinished : job.status ≠ .completed → job.result = none

/-- An error of a scan has a text; `ScanAll` returns no error at all. -/
def Worded : Event (Scanning R) → Prop
  | ⟨.scanAll _, .error message⟩ => message ≠ ""
  | _ => True

/-- What a section that is due makes of the job it writes to. -/
inductive Written (names : Names) (past : List (Event (Scanning R))) :
    Event (Scanning R) → Option (ScanJob R) → ScanJob R → Prop
  | stored (job : ScanJob R) (r : (Scanning R).Reply (.store job)) (hpending : job.status = .pending)
      (hresult : job.result = none) : Written names past ⟨.store job, r⟩ none job
  | running (job : ScanJob R) (id : String) (r : (Scanning R).Reply (ScanRequest.running id))
      (hpending : job.status = .pending) : Written names past ⟨.running id, r⟩ (some job)
        { job with status := .running, progress := 10 }
  | progress (job : ScanJob R) (id : String) (percent : Nat)
      (r : (Scanning R).Reply (ScanRequest.progress id percent))
      (hrunning : job.status = .running) : Written names past ⟨.progress id percent, r⟩ (some job)
        { job with progress := percent }
  | fail (job : ScanJob R) (id : String) (updated : Time) (message : String)
      (r : (Scanning R).Reply (ScanRequest.fail id updated message))
      (hrunning : job.status = .running)
      (herror : ∃ targets, ⟨.scanAll targets, .error message⟩ ∈ past) :
      Written names past ⟨.fail id updated message, r⟩ (some job)
        { job with updatedAt := updated, status := .failed, error := message, progress := 0 }
  | complete (job : ScanJob R) (id : String) (updated : Time) (result : R)
      (persisted : (Scanning R).Reply (ScanRequest.complete id updated result))
      (hrunning : job.status = .running) : Written names past ⟨.complete id updated result, persisted⟩ 
        (some job) (completed names updated result persisted job)

theorem written_apply (names : Names) (hid : touched e = some id)
    (hdue : Due past (sm.getScan id) e.op) :
    ∃ job, (sm.apply names e).getScan id = some job ∧ Written names past e (sm.getScan id) job := by
  have hjob : ∀ {status}, (sm.getScan id).map ScanJob.status = some status →
      ∃ job, sm.getScan id = some job ∧ job.status = status := fun h => Option.map_eq_some_iff.mp h
  obtain ⟨o, r⟩ := e
  cases o with
  | validateTarget target => cases hid
  | newUUID => cases hid
  | now => cases hid
  | scanAll targets => cases hid
  | store job =>
    cases hid
    obtain ⟨hnone, hpending, hresult⟩ := hdue
    rw [hnone]
    exact ⟨job, (getScan_store names r).trans (if_pos rfl), .stored job r hpending hresult⟩
  | running id' =>
    cases hid
    obtain ⟨job, h, hpending⟩ := hjob hdue
    rw [getScan_running, if_pos rfl, h]
    exact ⟨_, rfl, .running job id r hpending⟩
  | progress id' percent =>
    cases hid
    obtain ⟨job, h, hrunning⟩ := hjob hdue
    rw [getScan_progress, if_pos rfl, h]
    exact ⟨_, rfl, .progress job id percent r hrunning⟩
  | fail id' updated message =>
    cases hid
    obtain ⟨job, h, hrunning⟩ := hjob hdue.1
    rw [getScan_fail, if_pos rfl, h]
    exact ⟨_, rfl, .fail job id updated message r hrunning hdue.2⟩
  | complete id' updated result =>
    cases hid
    obtain ⟨job, h, hrunning⟩ := hjob hdue
    rw [getScan_completed, if_pos rfl, h]
    exact ⟨_, rfl, .complete job id updated result r hrunning⟩

theorem moves_apply (hdue : touched e = some id → Due past (sm.getScan id) e.op) :
    Moves (statusOf id sm) (statusOf id (sm.apply names e)) := by
  rw [statusOf, statusOf]
  by_cases hid : touched e = some id
  · obtain ⟨job, hjob, hwritten⟩ := written_apply names hid (hdue hid)
    rw [hjob]
    generalize sm.getScan id = old at hwritten ⊢
    cases hwritten with
    | stored job r hpending hresult =>
      rw [Option.map_some, hpending]
      exact .submit
    | running job id r hpending =>
      rw [Option.map_some, hpending]
      exact .start
    | progress job id percent r hrunning => exact .stay _
    | fail job id updated message r hrunning herror =>
      rw [Option.map_some, hrunning]
      exact .fail
    | complete job id updated result persisted hrunning =>
      rw [Option.map_some, hrunning]
      exact .complete
  · rw [getScan_frame hid]
    exact .stay _

theorem settled_apply (hdue : touched e = some id → Due past (sm.getScan id) e.op)
    (hworded : ∀ d ∈ past, Worded d) (hsettled : ∀ job ∈ sm.getScan id, Settled job) :
    ∀ job ∈ (sm.apply names e).getScan id, Settled job := by
  by_cases hid : touched e = some id
  · obtain ⟨job, hjob, hwritten⟩ := written_apply names hid (hdue hid)
    rw [hjob]
    rintro _ ⟨⟩
    generalize sm.getScan id = old at hwritten hsettled
    cases hwritten with
    | stored job r hpending hresult =>
      exact ⟨by rw [hpending]; exact nofun, by rw [hpending]; exact nofun, fun _ => hresult⟩
    | running old id r hpending =>
      have hold := hsettled old rfl
      refine ⟨nofun, nofun, fun _ => hold.unfinished ?_⟩
      rw [hpending]
      exact nofun
    | progress old id percent r hrunning =>
      have hold := hsettled old rfl
      refine ⟨?_, ?_, hold.unfinished⟩
      · rw [hrunning]
        exact nofun
      · rw [hrunning]
        exact nofun
    | fail old id updated message r hrunning herror =>
      have hold := hsettled old rfl
      obtain ⟨targets, hpast⟩ := herror
      refine ⟨nofun, fun _ => hworded _ hpast, fun _ => hold.unfinished ?_⟩
      rw [hrunning]
      exact nofun
    | complete old id updated result persisted hrunning =>
      exact ⟨fun _ => ⟨rfl, result, rfl⟩, nofun, fun h => absurd rfl h⟩
  · rw [getScan_frame hid]
    exact hsettled

end Steps

section Runs

variable {scans : List Submission} {es before rest : List (Nat × Event (Scanning R))} {i : Nat}
  {a : Nat × Event (Scanning R)} {id : String} {sm : ScanManager R} {job : ScanJob R}

theorem after_append : after names (before ++ [a]) = (after names before).apply names a.2 :=
  List.foldl_append

theorem statusOf_of_getScan {status : Status} (hjob : sm.getScan id = some job)
    (h : job.status = status) : statusOf id sm = some status := by
  rw [statusOf, hjob, Option.map_some, h]

/-- A job is what the scan that drew its identifier has made of it. -/
theorem getScan_after (hrun : Interleaves (scans.map (scan names m)) es)
    (hids : (drawnIDs es).Nodup) (hi : Draws es i id) (hbefore : ∀ a ∈ before, a ∈ es) :
    (after names before).getScan id = (alone names (project i before)).getScan id := by
  induction before using List.reverseRecOn with
  | nil => rfl
  | append_singleton before a ih =>
    have hsame := ih fun b hb => hbefore b (List.mem_append_left _ hb)
    have ha := attributed hrun (hbefore a (List.mem_append_right _ List.mem_cons_self))
    rw [after_append, project_append]
    by_cases hown : a.1 = i
    · have hproject : project i [a] = [a.2] := by simp [project, hown]
      rw [hproject, alone, List.foldl_append]
      exact getScan_congr hsame
    · have hproject : project i [a] = [] := by simp [project, hown]
      rw [hproject, List.append_nil, ← hsame]
      exact getScan_frame fun hid => hown (draws_inj hids (ha.touches id hid) hi)

theorem due_of_run (hrun : Interleaves (scans.map (scan names m)) es) (hids : (drawnIDs es).Nodup)
    (hes : es = before ++ a :: rest) (hid : touched a.2 = some id) :
    Due (project a.1 before) ((after names before).getScan id) a.2.op := by
  have ha : a ∈ es := hes ▸ List.mem_append_right _ List.mem_cons_self
  have hsame : (after names before).getScan id = (alone names (project a.1 before)).getScan id :=
    getScan_after hrun hids ((attributed hrun ha).touches id hid)
      fun b hb => hes ▸ List.mem_append_left _ hb
  have htimely : Timely names (project a.1 before) a.2 := by
    have hrun' : Interleaves (scans.map (scan names m)) (before ++ (a.1, a.2) :: rest) :=
      hes ▸ hrun
    refine along_project (fun p hp => ?_) hrun'
    rw [Option.mem_def, List.getElem?_map, Option.map_eq_some_iff] at hp
    obtain ⟨s, -, rfl⟩ := hp
    exact timely_scan names s
  rw [hsame]
  exact htimely id hid

/-- A later section has completed another scan of the same tenant and asset. -/
def Replaced (names : Names) (before : List (Nat × Event (Scanning R))) (id : String)
    (job : ScanJob R) : Prop :=
  ∃ earlier a later id' job', before = earlier ++ a :: later ∧
    statusOf id (after names earlier) = some .completed ∧
    statusOf id' (after names earlier) = some .running ∧
    (after names (earlier ++ [a])).getScan id' = some job' ∧ job'.status = .completed ∧
    Tenant.normalize job'.tenantID = Tenant.normalize job.tenantID ∧ job'.assetID = job.assetID

theorem Replaced.append (h : Replaced names before id job) :
    Replaced names (before ++ [a]) id job := by
  obtain ⟨earlier, b, later, id', job', rfl, hparts⟩ := h
  exact ⟨earlier, b, later ++ [a], id', job', by simp, hparts⟩

/-- What a run has made of the jobs. -/
structure Kept (names : Names) (scans : List Submission) (es : List (Nat × Event (Scanning R)))
    (before : List (Nat × Event (Scanning R))) : Prop where
  owned : Owned scans es (after names before)
  settled : ∀ id, ∀ job ∈ (after names before).getScan id, Settled job
  indexed : ∀ id job result, (after names before).getScan id = some job →
    job.status = .completed → job.result = some result →
      (after names before).getResultForTenant job.tenantID job.assetID = some result ∨
        Replaced names before id job

theorem results_apply (names : Names) (sm : ScanManager R) {e : Event (Scanning R)}
    (h : ∀ id updated result, e.op ≠ .complete id updated result) :
    (sm.apply names e).results = sm.results := by
  obtain ⟨o, r⟩ := e
  cases o with
  | validateTarget target => rfl
  | newUUID => rfl
  | now => rfl
  | scanAll targets => rfl
  | store job => rfl
  | running id => exact results_updateJob
  | progress id percent => exact results_updateJob
  | fail id updated message => exact results_updateJob
  | complete id updated result => exact absurd rfl (h id updated result)

/-- A job that a section leaves completed was so before, or the section completes it. -/
theorem completed_cases {e : Event (Scanning R)} {past : List (Event (Scanning R))}
    (hdue : touched e = some id → Due past (sm.getScan id) e.op)
    (hjob : (sm.apply names e).getScan id = some job) (hcompleted : job.status = .completed) :
    sm.getScan id = some job ∨
      ∃ old updated result persisted, e = ⟨.complete id updated result, persisted⟩ ∧
        sm.getScan id = some old ∧ old.status = .running ∧
        job = completed names updated result persisted old := by
  by_cases hid : touched e = some id
  · right
    obtain ⟨job', hjob', hwritten⟩ := written_apply names hid (hdue hid)
    obtain rfl := Option.some.inj (hjob.symm.trans hjob')
    generalize hold : sm.getScan id = old at hwritten
    cases hwritten with
    | stored job r hpending hresult => exact absurd (hpending.symm.trans hcompleted) nofun
    | running old id' r hpending => cases hcompleted
    | progress old id' percent r hrunning => exact absurd (hrunning.symm.trans hcompleted) nofun
    | fail old id' updated message r hrunning herror => cases hcompleted
    | complete old id' updated result persisted hrunning =>
      obtain rfl := Option.some.inj hid
      exact ⟨old, updated, result, persisted, rfl, rfl, hrunning, rfl⟩
  · exact .inl ((getScan_frame hid).symm.trans hjob)

/-- The completion of another scan leaves the result of a completed one indexed, or
replaces it. -/
theorem indexed_complete (h : Kept names scans es before) {id' : String} {old : ScanJob R}
    {result result' : R} {updated' : Time} {persisted : Option (Except String String)}
    (ha : a.2 = ⟨.complete id' updated' result', persisted⟩)
    (hreply : Slashless persisted) (hold : (after names before).getScan id' = some old)
    (hrunning : old.status = .running) (hjob : (after names before).getScan id = some job)
    (hcompleted : job.status = .completed) (hresult : job.result = some result) :
    (after names (before ++ [a])).getResultForTenant job.tenantID job.assetID = some result ∨
      Replaced names (before ++ [a]) id job := by
  have happly : after names (before ++ [a]) =
      (after names before).complete names id' updated' result' persisted :=
    after_append.trans (congrArg (apply names (after names before)) ha)
  obtain hindexed | hreplaced := h.indexed id job result hjob hcompleted hresult
  · rw [happly, getResult_complete hold]
    split_ifs with hkey
    · right
      have hslash := @slashless_completedAsset R names _ _ (h.owned id' old hold).2 hreply
      obtain ⟨htenant, hasset⟩ := (resultKey_inj (h.owned id job hjob).2 hslash).mp hkey
      refine ⟨before, a, [], id', completed names updated' result' persisted old, rfl,
        statusOf_of_getScan hjob hcompleted, statusOf_of_getScan hold hrunning, ?_, rfl,
        htenant.symm, hasset.symm⟩
      rw [happly, getScan_complete, getScan_updateJob, if_pos rfl, hold, Option.map_some]
    · exact .inl hindexed
  · exact .inr hreplaced.append

theorem kept_append (ha : Attributed scans es a)
    (hreply : SlashlessReply a.2)
    (hdue : ∀ id, touched a.2 = some id →
      Due (project a.1 before) ((after names before).getScan id) a.2.op)
    (hworded : ∀ d ∈ project a.1 before, Worded d) (h : Kept names scans es before) :
    Kept names scans es (before ++ [a]) where
  owned := by
    rw [after_append]
    exact owned_apply h.owned ha hreply
  settled id := by
    rw [after_append]
    exact settled_apply (hdue id) hworded (h.settled id)
  indexed id job result hjob hcompleted hresult := by
    rw [after_append] at hjob
    obtain hbefore | ⟨old, updated, result', persisted, he, hold, hrunning, rfl⟩ :=
      completed_cases (hdue id) hjob hcompleted
    · by_cases hother : ∃ id' updated result, a.2.op = .complete id' updated result
      · obtain ⟨id', updated, result', ho⟩ := hother
        obtain ⟨i, o, r⟩ := a
        obtain rfl : o = .complete id' updated result' := ho
        obtain ⟨_, -, hwritten⟩ := written_apply names rfl (hdue id' rfl)
        generalize hold : (after names before).getScan id' = old at hwritten
        cases hwritten with
        | complete old _ _ _ _ hrunning =>
          exact indexed_complete h rfl hreply hold hrunning hbefore hcompleted hresult
      · have hsame := results_apply names (after names before)
          fun id' updated result' ho => hother ⟨id', updated, result', ho⟩
        obtain hindexed | hreplaced := h.indexed id job result hbefore hcompleted hresult
        · left
          rwa [after_append, getResultForTenant, hsame]
        · exact .inr hreplaced.append
    · left
      obtain rfl := Option.some.inj hresult
      rw [after_append, he]
      exact (getResult_complete hold).trans (if_pos rfl)

theorem kept_of_run (hrun : Interleaves (scans.map (scan names m)) es)
    (hids : (drawnIDs es).Nodup) (hreply : ∀ a ∈ es, SlashlessReply a.2)
    (hworded : ∀ a ∈ es, Worded a.2) (hes : es = before ++ rest) : Kept names scans es before := by
  induction before using List.reverseRecOn generalizing rest with
  | nil =>
    refine ⟨owned_empty, fun id job hjob => ?_, fun id job result hjob => ?_⟩
    · rw [after, List.foldl_nil, getScan_empty] at hjob
      cases hjob
    · rw [after, List.foldl_nil, getScan_empty] at hjob
      cases hjob
  | append_singleton before a ih =>
    have hsplit : es = before ++ a :: rest := by rw [hes, List.append_assoc, List.singleton_append]
    have ha : a ∈ es := hsplit ▸ List.mem_append_right _ List.mem_cons_self
    refine kept_append (attributed hrun ha) (hreply a ha)
      (fun id hid => due_of_run hrun hids hsplit hid) (fun d hd => ?_) (ih hsplit)
    exact hworded _ (hsplit ▸ List.mem_append_left _ (mem_project.mp hd))

/-- Whatever scans go on side by side, the status of a job takes only the steps of its
lifecycle, a completed job is all there and indexed until another takes its place, and a
failed one has an error and no result. -/
theorem scan_lifecycle (hrun : Interleaves (scans.map (scan names m)) es)
    (hids : (drawnIDs es).Nodup) (hreply : ∀ a ∈ es, SlashlessReply a.2)
    (hworded : ∀ a ∈ es, Worded a.2) :
    (∀ before a rest, es = before ++ a :: rest → ∀ id,
      Moves (statusOf id (after names before)) (statusOf id (after names (before ++ [a])))) ∧
    ∀ before rest, es = before ++ rest → ∀ id job, (after names before).getScan id = some job →
      (job.status = .completed → job.progress = 100 ∧ ∃ result, job.result = some result ∧
        ((after names before).getResultForTenant job.tenantID job.assetID = some result ∨
          Replaced names before id job)) ∧
      (job.status = .failed → job.error ≠ "" ∧ job.result = none) := by
  refine ⟨fun before a rest hes id => ?_, fun before rest hes id job hjob => ⟨?_, ?_⟩⟩
  · rw [after_append]
    exact moves_apply fun hid => due_of_run hrun hids hes hid
  · intro hcompleted
    have hkept := kept_of_run hrun hids hreply hworded hes
    obtain ⟨hprogress, result, hresult⟩ := (hkept.settled id job hjob).completed hcompleted
    exact ⟨hprogress, result, hresult, hkept.indexed id job result hjob hcompleted hresult⟩
  · intro hfailed
    have hsettled := (kept_of_run hrun hids hreply hworded hes).settled id job hjob
    refine ⟨hsettled.failed hfailed, hsettled.unfinished ?_⟩
    rw [hfailed]
    exact nofun

theorem worded_sideBySide : ∀ a ∈ sideBySide, Worded a.2 := by
  intro a ha
  have hscanned : ∀ (t id : String) (result : Nat), ∀ e ∈ scanned t id result, Worded e := by
    simp [scanned, Worded]
  have hmem : a.2 ∈ project a.1 sideBySide := mem_project.mpr ha
  obtain ⟨_, hproject⟩ | ⟨_, hproject⟩ := project_sideBySide ha
  · exact hscanned _ _ _ _ (hproject ▸ hmem)
  · exact hscanned _ _ _ _ (hproject ▸ hmem)

/-- Two scans of a website that go on side by side. -/
theorem scan_lifecycle_pair :
    statusOf "scan-1" (after uuids sideBySide) = some .completed ∧
      ∀ job, (after uuids sideBySide).getScan "scan-1" = some job → job.status = .completed →
        job.progress = 100 := by
  refine ⟨by decide, fun job hjob hcompleted => ?_⟩
  have hlife := (scan_lifecycle interleaves_sideBySide (by decide) slashlessReply_sideBySide
    worded_sideBySide).2 sideBySide [] (List.append_nil _).symm "scan-1" job hjob
  exact (hlife.1 hcompleted).1

end Runs

end RivicQ.Properties.ScanRuns
