import RivicQ.Shared.GitHubScans

namespace RivicQ.Properties.Fabrication

open RivicQ.Lib.GoStrings RivicQ.Lib.Tables RivicQ.Shared.GitHubScans
open RivicQ.Shared.Webhooks (Bytes Hmac Json Answer repository dispatch webhookScanConcurrency)

variable {D : Type} (cm : CaseMap) (rules : Rules D)
variable (hmac : Hmac) (unmarshal : Bytes → Option (String → Option Json))

/-- A result that is not made of the fixture. -/
def Genuine (r : GHScanResult D) : Prop := r.demo = false ∧ ∀ f ∈ r.findings, f.demo = false

def GenuineJob (job : GHScanJob D) : Prop := job.demo = false ∧ ∀ r ∈ job.results, Genuine r

def GenuineJobs (s : GHScanJobs D) : Prop :=
  ∀ id job, s.jobs.lookup id = some job → GenuineJob job

def GenuineResponse : Response D → Prop
  | .repos _ demo => demo = false
  | .queued _ _ demo => demo = false
  | .job job => GenuineJob job
  | .scans jobs => ∀ job ∈ jobs, GenuineJob job
  | .diff d => ∀ f ∈ d.new ++ d.resolved ++ d.unchanged, f.demo = false
  | .error _ _ | .notFound _ => True

/-- With no token the handlers that would go to GitHub refuse. -/
def Refuses : Event → Reply D → Prop
  | .listRepos environ _ _, a =>
    environ "GITHUB_TOKEN" = "" → ∃ status message, a = some (.inl (.error status message))
  | .scan environ _ _ _, a =>
    environ "GITHUB_TOKEN" = "" → ∃ status message, a = some (.inl (.error status message))
  | .dispatch environ _, a =>
    environ "GITHUB_TOKEN" = "" → ∀ event delivery, a ≠ some (.inr (.accepted event delivery))
  | _, _ => True

/-- A step in which nothing is made up. -/
def Honest (x : Event × Reply D) : Prop :=
  (∀ r, x.2 = some (.inl r) → GenuineResponse r) ∧ Refuses x.1 x.2

/-- The environments that a step reads. -/
def environs : Event → List Environ
  | .listRepos environ _ _ | .scan environ _ _ _ | .complete environ _ _ _ | .deliver environ _ _
  | .dispatch environ _ | .finish environ _ _ _ => [environ]
  | .fetch _ | .status _ _ | .list _ | .compare _ _ _ => []

/-- Where a step finds no token, `DEMO_MODE` is not blank, and no delivery sets off a scan. -/
def Guarded (st : Service D) : Event → Prop
  | .listRepos environ _ _ => environ "GITHUB_TOKEN" = "" → trimSpace (environ "DEMO_MODE") ≠ ""
  | .scan environ _ _ (.ok _) =>
    environ "GITHUB_TOKEN" = "" → trimSpace (environ "DEMO_MODE") ≠ ""
  | .dispatch environ i => environ "GITHUB_TOKEN" = "" → starts unmarshal st i = none
  | _ => True

/-- Every step of a run is guarded where it is made. -/
def Along (st : Service D) : List Event → Prop
  | [] => True
  | e :: es => Guarded unmarshal st e ∧ Along (step cm rules hmac unmarshal st e).2 es

/-- The scans that go on have a token, and those that are done are genuine. -/
structure Sound (st : Service D) : Prop where
  jobs : GenuineJobs st.jobs
  scans : ∀ s ∈ st.scans, s.token ≠ ""
  pushes : ∀ s ∈ st.pushes, s.token ≠ ""

theorem sound_start : Sound ({} : Service D) := by
  constructor
  · intro id job h
    cases h
  · intro s hs
    cases hs
  · intro s hs
    cases hs

theorem toLower_eq_empty {s : String} (h : toLower cm s = "") : s = "" := by
  have hlist : s.toList.map cm.lower = [] := by
    have := congrArg String.toList h
    rwa [toLower, String.toList_ofList] at this
  exact String.toList_eq_nil_iff.mp (List.map_eq_nil_iff.mp hlist)

/-- The two readings of `DEMO_MODE` differ where it is blank. -/
theorem demoModeEnabled_iff {environ : Environ}
    (hoff : StandardAuth.demoModeEnabled cm environ = false) :
    demoModeEnabled cm environ = true ↔ trimSpace (environ "DEMO_MODE") = "" := by
  simp only [StandardAuth.demoModeEnabled] at hoff
  split at hoff
  · cases hoff
  rename_i hv
  simp only [Bool.or_eq_true, decide_eq_true_eq, not_or] at hv
  simp only [demoModeEnabled, Bool.or_eq_true, decide_eq_true_eq]
  constructor
  · rintro (((h | h) | h) | h)
    · exact toLower_eq_empty cm h
    · exact absurd h hv.1.1
    · exact absurd h hv.1.2
    · exact absurd h hv.2
  · intro h
    rw [h]
    exact Or.inl (Or.inl (Or.inl rfl))

theorem genuine_analyze (id repo : String) (files : List RepoFile) :
    Genuine (analyzeRepositoryFiles rules id repo files false) := by
  refine ⟨rfl, fun f hf => ?_⟩
  obtain ⟨_, _, rfl⟩ := List.mem_map.mp hf
  rfl

theorem genuine_failedScan (id repo error : String) :
    Genuine (failedScan id repo error : GHScanResult D) := ⟨rfl, fun _ h => nomatch h⟩

/-- With a token a scan never turns to the fixture. -/
theorem genuine_scan {token : String} (h : token ≠ "") (environ : Environ) (github : GitHub)
    (id repo : String) (deep : Bool) :
    Genuine (scanGitHubRepo cm rules environ github id token repo deep) := by
  unfold scanGitHubRepo
  rw [if_neg h]
  split
  · exact genuine_failedScan id repo _
  simp only
  split
  · exact genuine_failedScan id repo _
  split
  · rename_i e _
    exact genuine_failedScan id repo e
  · exact genuine_analyze rules id repo _

theorem genuine_scanned {s : Scan} (h : s.token ≠ "") (environ : Environ) (github : GitHub)
    (uuid : Nat → String) :
    ∀ r ∈ scanned cm rules environ github uuid s, Genuine r := by
  intro r hr
  obtain ⟨n, hn, rfl⟩ := List.mem_mapIdx.mp hr
  exact genuine_scan cm rules h _ _ _ _ _

theorem genuineJob_finished {results : List (GHScanResult D)} (h : ∀ r ∈ results, Genuine r)
    (job : GHScanJob D) : GenuineJob (finished results job) := by
  refine ⟨?_, h⟩
  simp only [finished]
  cases hr : results.head? with
  | none => rfl
  | some r => exact (h r (List.mem_of_mem_head? hr)).1

theorem genuineJobs_store {s : GHScanJobs D} (hs : GenuineJobs s) {job : GHScanJob D}
    (h : GenuineJob job) : GenuineJobs (storeGHScanJob job s) := by
  intro id job' hjob'
  rw [storeGHScanJob, lookup_foldl_erase, Option.ite_none_left_eq_some, lookup_insert_if] at hjob'
  obtain ⟨-, hjob'⟩ := hjob'
  split at hjob'
  · cases hjob'
    exact h
  · exact hs id job' hjob'

theorem genuineJobs_update {s : GHScanJobs D} (hs : GenuineJobs s) {id : String}
    {f : GHScanJob D → GHScanJob D} (hf : ∀ job, GenuineJob job → GenuineJob (f job)) :
    GenuineJobs (updateGHScanJob id f s) := by
  unfold updateGHScanJob
  split
  · exact hs
  rename_i job hjob
  intro id' job' hjob'
  rw [lookup_insert_if] at hjob'
  split at hjob'
  · cases hjob'
    exact hf job (hs id job hjob)
  · exact hs id' job' hjob'

theorem genuine_get {s : GHScanJobs D} (hs : GenuineJobs s) {tenantID id : String}
    {job : GHScanJob D} (h : getGHScanJobForTenant tenantID id s = some job) : GenuineJob job :=
  hs id job (Option.filter_eq_some_iff.mp h).1

theorem genuine_status {s : GHScanJobs D} (hs : GenuineJobs s) (tenantID id : String) :
    GenuineResponse (gitHubScanStatusHandler tenantID id s) := by
  unfold gitHubScanStatusHandler
  split
  · rename_i job hjob
    obtain ⟨hdemo, hresults⟩ := genuine_get hs hjob
    exact ⟨hdemo, hresults⟩
  · trivial

theorem genuine_list {s : GHScanJobs D} (hs : GenuineJobs s) (tenantID : String) :
    GenuineResponse (gitHubScanListHandler tenantID s) := by
  intro job hjob
  obtain ⟨id, _, hid⟩ := List.mem_filterMap.mp (List.mem_filter.mp hjob).1
  exact hs id job hid

theorem keyed_genuine {job : GHScanJob D} (h : GenuineJob job) :
    ∀ e ∈ keyed rules job, e.2.demo = false := by
  have hall : ∀ (es : List (String × GHFinding D)), (∀ e ∈ es, e.2.demo = false) →
      ∀ e ∈ es.foldr (fun e es => if es.any (·.1 = e.1) then es else e :: es) [],
        e.2.demo = false := by
    intro es hes
    induction es with
    | nil => exact fun _ h => by cases h
    | cons x es ih =>
      intro e he
      have htail := ih fun y hy => hes y (List.mem_cons_of_mem x hy)
      rw [List.foldr_cons] at he
      split at he
      · exact htail e he
      · obtain rfl | he := List.mem_cons.mp he
        · exact hes e List.mem_cons_self
        · exact htail e he
  refine hall _ fun e he => ?_
  cases hr : job.results.head? with
  | none =>
    rw [hr] at he
    cases he
  | some r =>
    rw [hr] at he
    obtain ⟨f, hf, rfl⟩ := List.mem_map.mp he
    exact (h.2 r (List.mem_of_mem_head? hr)).2 f hf

theorem genuine_compare {s : GHScanJobs D} (hs : GenuineJobs s) (tenantID id against : String) :
    GenuineResponse (gitHubScanCompareHandler rules tenantID id against s) := by
  unfold gitHubScanCompareHandler
  split
  · trivial
  rename_i current hcurrent
  split
  · trivial
  rename_i previous hprevious
  have hcurr := keyed_genuine rules (genuine_get hs hcurrent)
  have hprev := keyed_genuine rules (genuine_get hs hprevious)
  intro f hf
  simp only [compareGHScans, List.mem_append, List.mem_map, List.mem_filter] at hf
  obtain (⟨e, he, rfl⟩ | ⟨e, he, rfl⟩) | ⟨e, he, rfl⟩ := hf
  · exact hcurr e he.1
  · exact hprev e he.1
  · exact hcurr e he.1

theorem honest_listRepos (st : Service D) {environ : Environ}
    (hoff : StandardAuth.demoModeEnabled cm environ = false) (now : String) (answer : Listing) :
    Honest (Event.listRepos environ now answer,
      (step cm rules hmac unmarshal st (.listRepos environ now answer)).1) ↔
      Guarded unmarshal st (.listRepos environ now answer) := by
  have hdemo := demoModeEnabled_iff cm hoff
  simp only [Honest, Refuses, Guarded, step, Option.some.injEq, Sum.inl.injEq, forall_eq',
    gitHubRepoListHandler]
  by_cases htoken : environ "GITHUB_TOKEN" = ""
  · by_cases hmode : trimSpace (environ "DEMO_MODE") = ""
    · simp [htoken, hdemo.mpr hmode, hmode, GenuineResponse]
    · have hdisabled : ¬ demoModeEnabled cm environ = true := mt hdemo.mp hmode
      simp [htoken, hdisabled, hmode, GenuineResponse]
  · cases answer <;> simp [htoken, GenuineResponse]

theorem honest_scan (st : Service D) {environ : Environ}
    (hoff : StandardAuth.demoModeEnabled cm environ = false) (tenantID jobID : String)
    (body : Except String GHScanRequest) :
    Honest (Event.scan environ tenantID jobID body,
      (step cm rules hmac unmarshal st (.scan environ tenantID jobID body)).1) ↔
      Guarded unmarshal st (.scan environ tenantID jobID body) := by
  have hdemo := demoModeEnabled_iff cm hoff
  simp only [Honest, Refuses, step, Option.some.injEq, Sum.inl.injEq, forall_eq',
    gitHubScanHandler]
  by_cases htoken : environ "GITHUB_TOKEN" = ""
  · by_cases hmode : trimSpace (environ "DEMO_MODE") = ""
    · cases body <;> simp [Guarded, htoken, hdemo.mpr hmode, hmode, GenuineResponse]
    · have hdisabled : ¬ demoModeEnabled cm environ = true := mt hdemo.mp hmode
      cases body <;> simp [Guarded, htoken, hdisabled, hmode, GenuineResponse]
  · cases body <;> simp [Guarded, htoken, GenuineResponse]

theorem repository_error {payload : Bytes} {a : Answer}
    (h : repository unmarshal payload = .error a) (event delivery : String) :
    a ≠ .accepted event delivery := by
  unfold repository at h
  split at h
  · cases h
    nofun
  simp only at h
  split at h
  · cases h
    nofun
  split at h
  · cases h
    nofun
  split at h
  · cases h
    nofun
  · cases h

/-- A delivery is answered as accepted exactly where it sets off a scan. -/
theorem accepted_iff (st : Service D) (environ : Environ) (i : Nat) :
    (∃ event delivery, (step cm rules hmac unmarshal st (.dispatch environ i)).1 =
      some (.inr (.accepted event delivery))) ↔ starts unmarshal st i ≠ none := by
  simp only [step, Shared.Webhooks.step, starts]
  cases hw : st.hooks.waiting[i]? with
  | none => simp
  | some w =>
    obtain ⟨r, payload⟩ := w
    simp only [Option.map_some, Option.some.injEq, Sum.inr.injEq]
    unfold dispatch
    by_cases hevent : r.event ≠ "push" ∧ r.event ≠ "pull_request"
    · simp [if_pos hevent]
    rw [if_neg hevent]
    cases hrepo : repository unmarshal payload with
    | error a => simp [repository_error unmarshal hrepo]
    | ok fullName =>
      by_cases hroom : st.hooks.running < webhookScanConcurrency
      · simp [if_pos hroom]
      · simp [if_neg hroom]

theorem honest_dispatch (st : Service D) (environ : Environ) (i : Nat) :
    Honest (Event.dispatch environ i,
      (step cm rules hmac unmarshal st (.dispatch environ i)).1) ↔
      Guarded unmarshal st (.dispatch environ i) := by
  have haccepted := accepted_iff cm rules hmac unmarshal st environ i
  have hinr : ∀ r, (step cm rules hmac unmarshal st (.dispatch environ i)).1 ≠ some (.inl r) := by
    intro r hr
    simp only [step, Option.map_eq_some_iff, reduceCtorEq, and_false, exists_false] at hr
  simp only [Honest, Refuses, Guarded]
  constructor
  · rintro ⟨_, hrefuses⟩ htoken
    by_contra hstarts
    obtain ⟨event, delivery, h⟩ := haccepted.mpr hstarts
    exact hrefuses htoken event delivery h
  · intro hguard
    refine ⟨fun r hr => absurd hr (hinr r), fun htoken event delivery h => ?_⟩
    exact haccepted.mp ⟨event, delivery, h⟩ (hguard htoken)

theorem honest_iff {st : Service D} (hst : Sound st) {e : Event}
    (hoff : ∀ environ ∈ environs e, StandardAuth.demoModeEnabled cm environ = false) :
    Honest (e, (step cm rules hmac unmarshal st e).1) ↔ Guarded unmarshal st e := by
  cases e with
  | listRepos environ now answer =>
    exact honest_listRepos cm rules hmac unmarshal st (hoff environ (by simp [environs])) now answer
  | scan environ tenantID jobID body =>
    exact honest_scan cm rules hmac unmarshal st (hoff environ (by simp [environs])) tenantID jobID
      body
  | dispatch environ i => exact honest_dispatch cm rules hmac unmarshal st environ i
  | status tenantID id =>
    simp only [Honest, Refuses, Guarded, step, Option.some.injEq, Sum.inl.injEq, forall_eq']
    exact iff_of_true ⟨genuine_status hst.jobs tenantID id, trivial⟩ trivial
  | list tenantID =>
    simp only [Honest, Refuses, Guarded, step, Option.some.injEq, Sum.inl.injEq, forall_eq']
    exact iff_of_true ⟨genuine_list hst.jobs tenantID, trivial⟩ trivial
  | compare tenantID id against =>
    simp only [Honest, Refuses, Guarded, step, Option.some.injEq, Sum.inl.injEq, forall_eq']
    exact iff_of_true ⟨genuine_compare rules hst.jobs tenantID id against, trivial⟩ trivial
  | fetch i =>
    refine iff_of_true ⟨fun r hr => ?_, trivial⟩ trivial
    simp only [step] at hr
    split at hr
    · cases hr
    · split at hr <;> cases hr
  | complete environ i github uuid =>
    refine iff_of_true ⟨fun r hr => ?_, trivial⟩ trivial
    simp only [step] at hr
    split at hr
    · cases hr
    · split at hr <;> cases hr
  | deliver environ d now =>
    refine iff_of_true ⟨fun r hr => ?_, trivial⟩ trivial
    simp only [step, Option.map_eq_some_iff, reduceCtorEq, and_false, exists_false] at hr
  | finish environ i github id =>
    refine iff_of_true ⟨fun r hr => ?_, trivial⟩ trivial
    simp only [step] at hr
    split at hr <;> cases hr

theorem sound_scan {st : Service D} (hst : Sound st) {environ : Environ}
    (hoff : StandardAuth.demoModeEnabled cm environ = false) (tenantID jobID : String)
    (body : Except String GHScanRequest)
    (hguard : Guarded unmarshal st (.scan environ tenantID jobID body)) :
    Sound (gitHubScanHandler cm environ tenantID jobID body st).2 := by
  unfold gitHubScanHandler
  simp only
  split
  · exact hst
  cases body with
  | error e => exact hst
  | ok req =>
    have htoken : environ "GITHUB_TOKEN" ≠ "" := by
      rename_i hrefused
      intro htoken
      have hmode := mt (demoModeEnabled_iff cm hoff).mp (hguard htoken)
      exact hrefused ⟨htoken, by simpa using hmode⟩
    refine ⟨genuineJobs_store hst.jobs ⟨?_, fun _ h => nomatch h⟩, fun s hs => ?_, hst.pushes⟩
    · simp [htoken]
    · obtain hs | hs := List.mem_append.mp hs
      · exact hst.scans s hs
      · rw [List.mem_singleton.mp hs]
        exact htoken

theorem sound_step {st : Service D} (hst : Sound st) {e : Event}
    (hoff : ∀ environ ∈ environs e, StandardAuth.demoModeEnabled cm environ = false)
    (hguard : Guarded unmarshal st e) : Sound (step cm rules hmac unmarshal st e).2 := by
  cases e with
  | listRepos | status | list | compare => exact hst
  | scan environ tenantID jobID body =>
    exact sound_scan cm unmarshal hst (hoff environ (by simp [environs])) tenantID jobID body hguard
  | fetch i =>
    simp only [step]
    split
    · exact hst
    rename_i s hs
    split
    · exact hst
    refine ⟨genuineJobs_update hst.jobs fun job hjob => hjob, fun s' hs' => ?_, hst.pushes⟩
    obtain hs' | rfl := List.mem_or_eq_of_mem_set hs'
    · exact hst.scans s' hs'
    · exact hst.scans s (List.mem_of_getElem? hs)
  | complete environ i github uuid =>
    simp only [step]
    split
    · exact hst
    rename_i s hs
    split
    · exact hst
    have htoken := hst.scans s (List.mem_of_getElem? hs)
    refine ⟨genuineJobs_update hst.jobs fun job _ => ?_, fun s' hs' => ?_, hst.pushes⟩
    · exact genuineJob_finished (genuine_scanned cm rules htoken environ github uuid) job
    · exact hst.scans s' (List.mem_of_mem_eraseIdx hs')
  | deliver environ d now =>
    simp only [step]
    exact ⟨hst.jobs, hst.scans, hst.pushes⟩
  | dispatch environ i =>
    simp only [step]
    refine ⟨hst.jobs, hst.scans, fun s hs => ?_⟩
    obtain hs | hs := List.mem_append.mp hs
    · exact hst.pushes s hs
    · intro htoken
      cases hstarts : starts unmarshal st i with
      | none =>
        rw [hstarts] at hs
        cases hs
      | some fullName =>
        rw [hstarts, Option.map_some, Option.toList_some, List.mem_singleton] at hs
        rw [hs] at htoken
        rw [hguard htoken] at hstarts
        cases hstarts
  | finish environ i github id =>
    simp only [step]
    split
    · exact hst
    rename_i s hs
    have hgenuine := genuine_scan cm rules (hst.pushes s (List.mem_of_getElem? hs)) environ github
      id s.repo false
    refine ⟨genuineJobs_store hst.jobs ⟨hgenuine.1, fun r hr => ?_⟩, hst.scans, fun s' hs' => ?_⟩
    · rw [List.mem_singleton.mp hr]
      exact hgenuine
    · exact hst.pushes s' (List.mem_of_mem_eraseIdx hs')

theorem honest_run {st : Service D} (hst : Sound st) {es : List Event}
    (hoff : ∀ e ∈ es, ∀ environ ∈ environs e, StandardAuth.demoModeEnabled cm environ = false) :
    (∀ x ∈ (run cm rules hmac unmarshal st es).1, Honest x) ∧
      GenuineJobs (run cm rules hmac unmarshal st es).2.jobs ↔
      Along cm rules hmac unmarshal st es := by
  induction es generalizing st with
  | nil => exact iff_of_true ⟨fun _ h => (nomatch h), hst.jobs⟩ trivial
  | cons e es ih =>
    have hhead := hoff e List.mem_cons_self
    have htail := fun e' he' => hoff e' (List.mem_cons_of_mem e he')
    have hstep := honest_iff cm rules hmac unmarshal hst hhead
    simp only [run, List.forall_mem_cons, Along, hstep, and_assoc]
    refine and_congr_right fun hguard => ?_
    exact ih (sound_step cm rules hmac unmarshal hst hhead hguard) htail

/-- A program with one file built in, in which the rules find one thing. -/
def sampleRules : Rules String where
  loadDemoRepoFiles := [⟨"main.go", "import \"crypto/md5\"".toUTF8.data.toList⟩]
  detect files := files.map RepoFile.path
  stages _ := [⟨"completed", "Scan complete", "completed"⟩]
  findingKey := id

def offline : GitHub where
  repository _ := .error "offline"
  tree _ := .error "offline"
  contents _ := .error "offline"

/-- A scan request, and its scan. -/
def scanOnce (environ : Environ) : List Event :=
  [.scan environ "acme" "job-1" (.ok ⟨["acme/widgets"], "", false⟩), .fetch 0,
    .complete environ 0 offline fun _ => "scan-1", .status "acme" "job-1"]

/-- All steps of a scan that is requested once are in the same environment. -/
theorem environs_scanOnce {environ environ' : Environ} {e : Event} (he : e ∈ scanOnce environ)
    (h : environ' ∈ environs e) : environ' = environ := by
  simp only [scanOnce, List.mem_cons, List.not_mem_nil, or_false] at he
  obtain rfl | rfl | rfl | rfl := he
  · exact List.mem_singleton.mp h
  · cases h
  · exact List.mem_singleton.mp h
  · cases h

/-- With `DEMO_MODE` set to a word that turns it off, the request is refused. -/
def disabled : Environ := fun key => if key = "DEMO_MODE" then "off" else ""

end RivicQ.Properties.Fabrication
