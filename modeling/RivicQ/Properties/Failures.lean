import RivicQ.Discovery.Components
import RivicQ.Properties.ScanRuns

namespace RivicQ.Properties.Failures

open RivicQ.Lib.Programs RivicQ.Lib.Tables RivicQ.Lib.Traces
open RivicQ.Discovery RivicQ.Discovery.Network RivicQ.Discovery.LocalPaths RivicQ.Discovery.Targets
open RivicQ.Discovery.Components RivicQ.Discovery.Scans RivicQ.Discovery.Scans.ScanManager
open RivicQ.Properties.Tenants RivicQ.Properties.ScanRuns

section Counts

variable {scanID : String} {startedAt completedAt : Nat} {targets : List Target}
  {attempts : List Attempt} {result : ScanResult}

theorem scannedTargets_scanAll
    (h : scanAll scanID startedAt completedAt targets attempts = .ok result) :
    result.summary.scannedTargets = attempts.length := by
  obtain rfl := Except.ok.inj h
  exact (scanned_foldl attempts {}).trans (Nat.zero_add _)

/-- The count of the summary is right if no scan fails, and only then. -/
theorem counted_iff :
    (∀ result, scanAll scanID startedAt completedAt targets attempts = .ok result →
      result.summary.scannedTargets = attempts.countP fun a => Succeeds a) ↔
    ∀ a ∈ attempts, Succeeds a := by
  have hall : attempts.length = attempts.countP (fun a => Succeeds a) ↔
      ∀ a ∈ attempts, Succeeds a := by
    rw [eq_comm, List.countP_eq_length]
    simp only [decide_eq_true_eq]
  constructor
  · intro h
    obtain ⟨result, hresult⟩ :
        ∃ result, scanAll scanID startedAt completedAt targets attempts = .ok result := ⟨_, rfl⟩
    exact hall.mp ((scannedTargets_scanAll hresult).symm.trans (h result hresult))
  · intro h result hresult
    exact (scannedTargets_scanAll hresult).trans (hall.mpr h)

end Counts

section Jobs

variable {R : Type} {names : Names} {m : Machine} {s : Submission} {id : String}
  {es : List (Event (Scanning R))} {targets : List Target} {result : R} {job : ScanJob R}

/-- What `ScanAll` has replied. -/
def replied : Event (Scanning R) → Option (Except String R)
  | ⟨.scanAll _, outcome⟩ => some outcome
  | _ => none

/-- A job that is known stays known. -/
theorem known_apply {sm : ScanManager R} {e : Event (Scanning R)} (hjob : (sm.getScan id).isSome) :
    ((sm.apply names e).getScan id).isSome := by
  obtain hsilent | ⟨job, -, -, happly⟩ | ⟨id', f, -, -, happly⟩ |
    ⟨id', updated, result, persisted, -, -, happly⟩ := apply_cases names e
  · rwa [hsilent]
  · rw [happly, getScan, lookup_insert_if]
    split_ifs
    · rfl
    · exact hjob
  · rw [happly, getScan_updateJob]
    split_ifs with hid
    · rwa [← hid, Option.isSome_map]
    · exact hjob
  · rw [happly, getScan_complete, getScan_updateJob]
    split_ifs with hid
    · rwa [← hid, Option.isSome_map]
    · exact hjob

theorem known_foldl (es : List (Event (Scanning R))) {sm : ScanManager R}
    (hjob : (sm.getScan id).isSome) :
    ((es.foldl (fun sm e => sm.apply names e) sm).getScan id).isSome := by
  induction es generalizing sm with
  | nil => exact hjob
  | cons e es ih => exact ih (known_apply hjob)

theorem completed_alone {start : List (Event (Scanning R))}
    (hjob : ((alone names start).getScan id).isSome) (updated : Time) (result : R)
    (persisted : (Scanning R).Reply (ScanRequest.complete id updated result)) :
    statusOf id (alone names (start ++ (es ++ [⟨.complete id updated result, persisted⟩]))) =
      some .completed := by
  have hknown := @known_foldl R names id es _ hjob
  obtain ⟨job, hjob⟩ := Option.isSome_iff_exists.mp hknown
  rw [statusOf, alone, List.foldl_append, List.foldl_append, List.foldl_cons, List.foldl_nil,
    getScan_completed, if_pos rfl]
  exact congrArg (Option.map ScanJob.status) (congrArg (Option.map _) hjob)

/-- The end of a scan that has come to a result. -/
theorem runs_executeScan (hrun : Runs (executeScan m job) es ())
    (hresult : some (.ok result) ∈ es.map replied) :
    ∃ running progress outcome now updated result persisted,
      es = [⟨.running job.id, running⟩, ⟨.progress job.id 30, progress⟩,
        ⟨.scanAll (buildTargets m job.target job.scanType), outcome⟩, ⟨.now, now⟩,
        ⟨.complete job.id updated result, persisted⟩] := by
  obtain ⟨running, _, rfl, hprogress⟩ := runs_request.mp hrun
  obtain ⟨progress, _, rfl, hscan⟩ := runs_request.mp hprogress
  obtain ⟨outcome, _, rfl, hnow⟩ := runs_request.mp hscan
  obtain ⟨updated, _, rfl, hend⟩ := runs_request.mp hnow
  cases outcome with
  | error message =>
    obtain ⟨failed, _, rfl, hpure⟩ := runs_request.mp hend
    obtain ⟨rfl, -⟩ := runs_pure.mp hpure
    simp [replied] at hresult
  | ok result' =>
    obtain ⟨persisted, _, rfl, hpure⟩ := runs_request.mp hend
    obtain ⟨rfl, -⟩ := runs_pure.mp hpure
    exact ⟨running, progress, .ok result', updated, updated, result', persisted, rfl⟩

/-- A job whose scan has come to a result is completed at the end. -/
theorem completed_scan (hrun : Runs (scan names m s) es ())
    (hresult : some (.ok result) ∈ es.map replied) (hid : some id ∈ es.map drawn) :
    statusOf id (alone names es) = some .completed := by
  obtain ⟨validated, _, rfl, hvalid⟩ := runs_request.mp hrun
  cases validated with
  | error e =>
    obtain ⟨rfl, -⟩ := runs_pure.mp hvalid
    simp [replied] at hresult
  | ok _ =>
    obtain ⟨id', _, rfl, hcreated⟩ := runs_request.mp hvalid
    obtain ⟨created, _, rfl, hupdated⟩ := runs_request.mp hcreated
    obtain ⟨updated, _, rfl, hstore⟩ := runs_request.mp hupdated
    obtain ⟨stored, es, rfl, hexecute⟩ := runs_request.mp hstore
    obtain ⟨running, progress, outcome, now, updated', result', persisted, rfl⟩ :=
      runs_executeScan hexecute (by simpa [replied] using hresult)
    have hsame : some id = some id' := by
      simp [drawn] at hid
      exact hid
    obtain rfl := Option.some.inj hsame
    have hknown := congrArg Option.isSome
      ((@getScan_store R names empty _ _ stored).trans (if_pos rfl))
    refine @completed_alone R names id [_, _, _, _] [_, _, _, _, _] ?_ updated' result' persisted
    exact hknown

end Jobs

section Reports

variable {names : Names} {m : Machine} {scans : List Submission} {s : Submission} {i : Nat}
  {es : List (Nat × Event (Scanning ScanResult))} {id scanID : String} {startedAt completedAt : Nat}
  {targets : List Target} {attempts : List Attempt}

/-- A scan of a run that has come to its end, with what `ScanAll` has replied to it. -/
structure Ends (names : Names) (m : Machine) (scans : List Submission)
    (es : List (Nat × Event (Scanning ScanResult))) (i : Nat) (id : String) (targets : List Target)
    (reply : Except String ScanResult) : Prop where
  runs : Interleaves (scans.map (scan names m)) es
  nodup : (drawnIDs es).Nodup
  draws : Draws es i id
  ends : ∃ s ∈ scans[i]?, Runs (scan names m s) (project i es) ()
  replies : (i, ⟨.scanAll targets, reply⟩) ∈ es

/-- Whatever the scans of its targets come to, a job is completed. -/
theorem completed_of_ends (h : Ends names m scans es i id targets
    (scanAll scanID startedAt completedAt targets attempts)) :
    statusOf id (after names es) = some .completed := by
  obtain ⟨s, -, hends⟩ := h.ends
  obtain ⟨d, hd, hdrawn⟩ := h.draws
  rw [statusOf, getScan_after h.runs h.nodup h.draws fun a ha => ha]
  refine completed_scan hends (List.mem_map.mpr ⟨_, mem_project.mpr h.replies, rfl⟩) ?_
  exact List.mem_map.mpr ⟨d, mem_project.mpr hd, hdrawn⟩

/-- A job whose scans have all failed is to end as failed. -/
theorem failed_iff (h : Ends names m scans es i id targets
    (scanAll scanID startedAt completedAt targets attempts)) :
    (targets ≠ [] → (∀ a ∈ attempts, ¬ Succeeds a) → statusOf id (after names es) = some .failed) ↔
      (targets = [] ∨ ∃ a ∈ attempts, Succeeds a) := by
  rw [completed_of_ends h]
  constructor
  · intro hfailed
    by_contra hnot
    rw [not_or] at hnot
    cases hfailed hnot.1 fun a ha hok => hnot.2 ⟨a, ha, hok⟩
  · rintro (rfl | ⟨a, ha, hok⟩) htargets hall
    · exact absurd rfl htargets
    · exact absurd hok (hall a ha)

/-- Failed scans are told from clean ones where none has failed, and only there. -/
theorem failures_reported_iff (hattempts : (attempts.map Attempt.target).Perm targets)
    (h : Ends names m scans es i id targets
      (scanAll scanID startedAt completedAt targets attempts)) :
    ((∀ result, scanAll scanID startedAt completedAt targets attempts = .ok result →
        result.summary.scannedTargets = attempts.countP fun a => Succeeds a) ∧
      (targets ≠ [] → (∀ a ∈ attempts, ¬ Succeeds a) →
        statusOf id (after names es) = some .failed)) ↔
      ∀ a ∈ attempts, Succeeds a := by
  rw [counted_iff, failed_iff h]
  refine ⟨And.left, fun hall => ⟨hall, ?_⟩⟩
  cases attempts with
  | nil => exact .inl (List.nil_perm.mp hattempts)
  | cons a attempts => exact .inr ⟨a, List.mem_cons_self, hall a List.mem_cons_self⟩

end Reports

section Outage

/-- The targets of a website. -/
def website : List Target := buildTargets bare "example.com" "website"

/-- None of them can be reached, as when the host is down. -/
def unreachable (target : Target) : Attempt where
  target := target
  network := .error "connect example.com:443: connection refused"
  inventory := .ok ([], [])

/-- All of them are reached, and nothing is found. -/
def clean (target : Target) : Attempt where
  target := target
  network := .ok []
  inventory := .ok ([], [])

def websiteJob : ScanJob ScanResult :=
  { id := "scan-1", assetID := assetIDFor uuids "example.com", target := "example.com"
    scanType := "website", status := .pending, progress := 0, createdAt := 0, updatedAt := 0
    tenantID := Tenant.normalize "tenant-a" }

def websiteResult (attempts : List Attempt) : ScanResult := scanResult "r-1" 0 1 website attempts

def websiteScan (attempts : List Attempt) : List (Event (Scanning ScanResult)) :=
  [⟨.validateTarget "example.com", .ok ()⟩, ⟨.newUUID, "scan-1"⟩, ⟨.now, (0 : Time)⟩,
    ⟨.now, (0 : Time)⟩, ⟨.store websiteJob, ()⟩, ⟨.running "scan-1", ()⟩,
    ⟨.progress "scan-1" 30, ()⟩, ⟨.scanAll website, scanAll "r-1" 0 1 website attempts⟩,
    ⟨.now, (1 : Time)⟩, ⟨.complete "scan-1" 1 (websiteResult attempts),
      (none : Option (Except String String))⟩]

def submission : Submission := ⟨"tenant-a", "example.com", "website"⟩

theorem runs_websiteScan (attempts : List Attempt) :
    Runs (scan uuids bare submission) (websiteScan attempts) () := by
  refine runs_request.mpr ⟨(.ok () : Except Err Unit), _, rfl, ?_⟩
  refine runs_request.mpr ⟨"scan-1", _, rfl, runs_request.mpr ⟨(0 : Time), _, rfl, ?_⟩⟩
  refine runs_request.mpr ⟨(0 : Time), _, rfl, runs_request.mpr ⟨(), _, rfl, ?_⟩⟩
  refine runs_request.mpr ⟨(), _, rfl, runs_request.mpr ⟨(), _, rfl, ?_⟩⟩
  refine runs_request.mpr ⟨scanAll "r-1" 0 1 website attempts, _, rfl, ?_⟩
  refine runs_request.mpr ⟨(1 : Time), _, rfl, ?_⟩
  exact runs_request.mpr ⟨(none : Option (Except String String)), [], rfl, .pure ()⟩

theorem ends_websiteScan (attempts : List Attempt) :
    Ends uuids bare [submission] ((websiteScan attempts).map fun e => (0, e)) 0 "scan-1" website
      (scanAll "r-1" 0 1 website attempts) where
  runs := by
    have hruns : Runs (scan uuids bare submission) (websiteScan attempts ++ []) () := by
      rw [List.append_nil]
      exact runs_websiteScan attempts
    exact interleaves_alone hruns
  nodup := List.nodup_singleton "scan-1"
  draws := ⟨⟨.newUUID, "scan-1"⟩, List.mem_cons_of_mem _ List.mem_cons_self, rfl⟩
  ends := ⟨submission, rfl, by rw [project_map]; exact runs_websiteScan attempts⟩
  replies := by simp [websiteScan]

theorem isNetwork_website : ∀ target ∈ website, isNetwork target = true :=
  List.all_eq_true.mp (by decide)

theorem not_succeeds_unreachable {target : Target} (h : isNetwork target = true) :
    ¬ Succeeds (unreachable target) := by
  rw [Succeeds, scanTarget, unreachable, if_pos h]
  exact Bool.false_ne_true

theorem succeeds_clean {target : Target} (h : isNetwork target = true) :
    Succeeds (clean target) := by
  rw [Succeeds, scanTarget, clean, if_pos h]
  rfl

/-- With its host down, a website counts as scanned, and the job as completed. -/
theorem outage_counts_as_scanned :
    (∀ a ∈ website.map unreachable, ¬ Succeeds a) ∧ website ≠ [] ∧
      (websiteResult (website.map unreachable)).summary.scannedTargets = 2 ∧
      statusOf "scan-1" (after uuids
        ((websiteScan (website.map unreachable)).map fun e => (0, e))) = some .completed := by
  have hlength : website.length = 2 := by decide
  refine ⟨fun a ha => ?_, List.ne_nil_of_length_pos (by omega), ?_,
    completed_of_ends (ends_websiteScan _)⟩
  · obtain ⟨target, htarget, rfl⟩ := List.mem_map.mp ha
    exact not_succeeds_unreachable (isNetwork_website target htarget)
  · have hcount : (websiteResult (website.map unreachable)).summary.scannedTargets =
        (website.map unreachable).length := scannedTargets_scanAll rfl
    rw [hcount, List.length_map, hlength]

theorem failures_reported_clean :
    (websiteResult (website.map clean)).summary.scannedTargets =
      (website.map clean).countP fun a => Succeeds a := by
  have hattempts : ((website.map clean).map Attempt.target).Perm website := by
    rw [List.map_map]
    exact List.Perm.of_eq (List.map_id website)
  refine ((failures_reported_iff hattempts (ends_websiteScan _)).mpr fun a ha => ?_).1 _ rfl
  obtain ⟨target, htarget, rfl⟩ := List.mem_map.mp ha
  exact succeeds_clean (isNetwork_website target htarget)

end Outage

end RivicQ.Properties.Failures
