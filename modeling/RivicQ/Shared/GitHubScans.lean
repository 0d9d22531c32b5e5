import RivicQ.Discovery.Scans
import RivicQ.Lib.Fields
import RivicQ.Lib.FilePaths
import RivicQ.Lib.Projections
import RivicQ.Shared.Webhooks

namespace RivicQ.Shared.GoMods

open RivicQ.Lib.GoStrings RivicQ.Lib.Fields RivicQ.Lib.Readers

structure GHComponent where
  name : String
  version : String
  purl : String
  type : String
  license : String := ""
  demo : Bool := false
  deriving DecidableEq

/-- What a line of a `go.mod` file gives, and whether the next one is in a block of
requirements. -/
def goModLine (inBlock : Bool) (text : String) : List GHComponent × Bool :=
  let line := trimSpace text
  if hasPrefix line "require (" then ([], true)
  else if inBlock ∧ line = ")" then ([], false)
  else
    let single :=
      if hasPrefix line "require " ∧ ¬ inBlock then
        match fields line with
        | _ :: name :: version :: _ =>
          [{ name, version, type := "golang", purl := "pkg:golang/" ++ name }]
        | _ => []
      else []
    let inside :=
      if inBlock ∧ line ≠ "" ∧ ¬ hasPrefix line "//" then
        match fields line with
        | name :: version :: _ =>
          [{ name, version, type := "golang", purl := "pkg:golang/" ++ name }]
        | _ => []
      else []
    (single ++ inside, inBlock)

def parseGoMod (content : String) : List GHComponent := outputs goModLine false (scanLines content)

end RivicQ.Shared.GoMods

namespace RivicQ.Shared.GitHubScans

open RivicQ.Lib.GoStrings RivicQ.Lib.Base64 RivicQ.Lib.HostPorts RivicQ.Lib.Tables
open RivicQ.Lib.FilePaths RivicQ.Shared.DeliveryCache RivicQ.Shared.Webhooks
open RivicQ.Discovery.Scans (Tenant.normalize Tenant.publicTenantID)

/-- The environment of the process, as `os.Getenv` reads it. -/
abbrev Environ := String → String

variable (cm : CaseMap)

/-- `DemoModeEnabled` of the authentication setup. -/
def StandardAuth.demoModeEnabled (environ : Environ) : Bool :=
  let v := toLower cm (trimSpace (environ "DEMO_MODE"))
  if v = "true" || v = "1" || v = "yes" then true
  else
    let v := toLower cm (trimSpace (environ "RIVICQ_ALLOW_DEMO_MODE"))
    v = "true" || v = "1" || v = "yes"

def demoModeEnabled (environ : Environ) : Bool :=
  let v := toLower cm (trimSpace (environ "DEMO_MODE"))
  v = "" || v = "true" || v = "1" || v = "yes"

def webhookSecretFromEnv (environ : Environ) : String :=
  if trimSpace (environ "RIVICQ_GITHUB_WEBHOOK_SECRET") ≠ "" then
    trimSpace (environ "RIVICQ_GITHUB_WEBHOOK_SECRET")
  else trimSpace (environ "GITHUB_WEBHOOK_SECRET")

/-- A positive decimal number, where the variable holds one. -/
def positive (environ : Environ) (key : String) : Option Int :=
  let (v, ok) := atoi (trimSpace (environ key))
  if ok ∧ 0 < v then some v else none

/-- Eight mebibytes. -/
def defaultWebhookBodyBytes : Int := 8388608

def maxWebhookBodyBytes (environ : Environ) : Int :=
  (positive environ "RIVICQ_GITHUB_WEBHOOK_MAX_BYTES").getD defaultWebhookBodyBytes

/-- The seconds are turned into nanoseconds in 64 bits. -/
def webhookReplayTTL (environ : Environ) : Duration :=
  match positive environ "RIVICQ_WEBHOOK_REPLAY_TTL_SECONDS" with
  | some v => (v * 1000000000).bmod (2 ^ 64)
  | none => defaultWebhookReplayTTL

def settings (environ : Environ) : Settings where
  secret := webhookSecretFromEnv environ
  maxWebhookBodyBytes := (maxWebhookBodyBytes environ).toNat
  webhookReplayTTL := webhookReplayTTL environ

structure RepoFile where
  path : String
  content : Bytes

structure GHScanStage where
  id : String
  label : String
  status : String
  deriving DecidableEq

/-- Something the content rules detect, marked where the content is the fixture's. -/
structure GHFinding (D : Type) where
  detail : D
  demo : Bool

structure GHScanResult (D : Type) where
  scanID : String
  repo : String
  status : String
  findings : List (GHFinding D) := []
  stages : List GHScanStage := []
  fileCount : Nat := 0
  defaultBranch : String := ""
  commitSHA : String := ""
  error : String := ""
  demo : Bool := false

structure GHScanJob (D : Type) where
  id : String
  tenantID : String
  status : String
  stage : String
  stages : List GHScanStage := []
  results : List (GHScanResult D) := []
  error : String := ""
  demo : Bool := false

/-- The files built into the program, and what the content rules make of files. -/
structure Rules (D : Type) where
  loadDemoRepoFiles : List RepoFile
  detect : List RepoFile → List D
  stages : List RepoFile → List GHScanStage
  findingKey : D → String

/-- What the API answers while a scan runs, by address: the default branch of a repository,
the digest and the paths of a tree with their types, the encoded content of a file. -/
structure GitHub where
  repository : String → Except String String
  tree : String → Except String (String × List (String × String))
  contents : String → Except String String

variable {D : Type} (rules : Rules D)

def analyzeRepositoryFiles (id repo : String) (files : List RepoFile) (demo : Bool) :
    GHScanResult D where
  scanID := id
  repo := repo
  status := "completed"
  findings := (rules.detect files).map fun detail => ⟨detail, demo⟩
  stages := rules.stages files
  fileCount := files.length
  demo := demo

def splitRepo (repo : String) : Option (String × String) :=
  let repo := trimSuffix (trimSpace (trimPrefix repo "https://github.com/")) ".git"
  match (repo.toList.splitOn '/').map String.ofList with
  | owner :: name :: _ => if owner = "" || name = "" then none else some (owner, name)
  | _ => none

def interestingExt : List String :=
  [".go", ".py", ".js", ".jsx", ".ts", ".tsx", ".java", ".rs", ".rb", ".php", ".cs", ".c", ".cpp",
    ".json", ".yml", ".yaml", ".xml", ".tf", ".mod", ".sum", ".txt", ".toml", ".gradle", ".env"]

def interestingNames : List String :=
  ["dockerfile", "docker-compose.yml", "docker-compose.yaml", "package.json",
    "package-lock.json", "go.mod", "go.sum", "requirements.txt", "pom.xml", "cargo.toml",
    "gemfile", "composer.json", "config.env", "secrets.fixture"]

def isInterestingPath (p : String) : Bool :=
  interestingNames.contains (toLower cm (base p)) || interestingExt.contains (toLower cm (ext p))

def githubAPIBase (environ : Environ) : String :=
  if trimSpace (environ "GITHUB_API_BASE") ≠ "" then
    trimRight (trimSpace (environ "GITHUB_API_BASE")) '/'
  else "https://api.github.com"

def githubFileContent (github : GitHub) (url : String) : Option Bytes :=
  match github.contents url with
  | .error _ => none
  | .ok encoded =>
    if encoded = "" then none
    else (decodeString (String.ofList (encoded.toList.filter (· != '\n')))).map
      (List.take (512 * 1024))

/-- The blobs of a tree that are looked at. -/
def interestingPaths (deep : Bool) (tree : List (String × String)) : List String :=
  ((tree.filter fun item => item.2 = "blob" && item.1 ≠ "" && isInterestingPath cm item.1).map
    Prod.fst).take (if deep then 80 else 40)

def failedScan (id repo error : String) : GHScanResult D where
  scanID := id
  repo := repo
  status := "failed"
  error := error

/-- Without a token the fixture is scanned in the place of the repository. -/
def scanGitHubRepo (environ : Environ) (github : GitHub) (id token repo : String) (deep : Bool) :
    GHScanResult D :=
  if token = "" then
    { analyzeRepositoryFiles rules id repo rules.loadDemoRepoFiles true with
      defaultBranch := "main", commitSHA := "demo-fixture" }
  else
    match splitRepo repo with
    | none => failedScan id repo "invalid repository (expected owner/name)"
    | some (owner, name) =>
      let url := githubAPIBase environ ++ "/repos/" ++ owner ++ "/" ++ name
      match github.repository url with
      | .error e => failedScan id repo e
      | .ok branch =>
        let branch := if branch = "" then "main" else branch
        match github.tree (url ++ "/git/trees/" ++ branch ++ "?recursive=1") with
        | .error e => { failedScan id repo e with defaultBranch := branch }
        | .ok (sha, tree) =>
          let files := (interestingPaths cm deep tree).filterMap fun p =>
            (githubFileContent github (url ++ "/contents/" ++ p)).map (RepoFile.mk p)
          { analyzeRepositoryFiles rules id repo files false with
            defaultBranch := branch, commitSHA := sha }

/-- The jobs of all tenants, and their identifiers, oldest first. -/
structure GHScanJobs (D : Type) where
  jobs : Table (GHScanJob D) := ∅
  order : List String := []

def storeGHScanJob (job : GHScanJob D) (s : GHScanJobs D) : GHScanJobs D :=
  let order := if (s.jobs.lookup job.id).isSome then s.order else s.order ++ [job.id]
  let excess := order.length - 50
  { jobs := (order.take excess).foldl (fun jobs old => jobs.erase old) (s.jobs.insert job.id job)
    order := order.drop excess }

def updateGHScanJob (id : String) (f : GHScanJob D → GHScanJob D) (s : GHScanJobs D) :
    GHScanJobs D :=
  match s.jobs.lookup id with
  | none => s
  | some job => { s with jobs := s.jobs.insert id (f job) }

def getGHScanJobForTenant (tenantID id : String) (s : GHScanJobs D) : Option (GHScanJob D) :=
  (s.jobs.lookup id).filter fun job => Tenant.normalize job.tenantID = Tenant.normalize tenantID

def listGHScanJobsForTenant (tenantID : String) (s : GHScanJobs D) : List (GHScanJob D) :=
  (s.order.reverse.filterMap s.jobs.lookup).filter fun job =>
    Tenant.normalize job.tenantID = Tenant.normalize tenantID

def fetching (job : GHScanJob D) : GHScanJob D :=
  { job with
    status := "running", stage := "fetching"
    stages := job.stages ++ [⟨"fetching", "Connecting to GitHub", "completed"⟩] }

/-- The status and the error of a job, from the results of its repositories. -/
def outcome (status : String) : List (GHScanResult D) → String × String
  | [] => (status, "")
  | r :: rs =>
    if r.status = "failed" then ("failed", r.error)
    else outcome (if r.status = "partial" then "completed_with_warnings" else status) rs

def finished (results : List (GHScanResult D)) (job : GHScanJob D) : GHScanJob D :=
  let (status, error) := outcome "completed" results
  { job with
    status, stage := status, results, error
    stages := match results.head? with
      | some r => if r.stages ≠ [] then r.stages else job.stages
      | none => job.stages
    demo := (results.head?.map GHScanResult.demo).getD false }

structure GHRepo where
  fullName : String
  cloneURL : String
  defaultBranch : String
  isPrivate : Bool
  description : String
  language : String
  updatedAt : String

/-- The repository that is listed in the place of those of an account. -/
def demoRepo (now : String) : GHRepo where
  fullName := "rivicq/demo-vulnerable-app"
  cloneURL := "https://github.com/rivicq/demo-vulnerable-app.git"
  defaultBranch := "main"
  isPrivate := false
  description := "SYNTHETIC DEMO repository fixture used to prove the content scanner " ++
    "(not production data)"
  language := "Go"
  updatedAt := now

/-- What a list request gets from GitHub. -/
inductive Listing where
  | failed (error : String)
  | status (code : Nat)
  | undecodable
  | repos (repos : List GHRepo)

structure GHScanRequest where
  repos : List String
  scanType : String
  deepScan : Bool

structure GHScanDiff (D : Type) where
  currentScan : String
  previousScan : String
  new : List (GHFinding D)
  resolved : List (GHFinding D)
  unchanged : List (GHFinding D)

inductive Response (D : Type) where
  | error (status : Nat) (message : String)
  | repos (repos : List GHRepo) (demo : Bool)
  | queued (scanID : String) (total : Nat) (demo : Bool)
  | job (job : GHScanJob D)
  | notFound (scanID : String)
  | scans (jobs : List (GHScanJob D))
  | diff (diff : GHScanDiff D)

def gitHubRepoListHandler (environ : Environ) (now : String) (answer : Listing) : Response D :=
  if environ "GITHUB_TOKEN" = "" then
    if demoModeEnabled cm environ then .repos [demoRepo now] true
    else .error 502 "GitHub token not configured"
  else
    match answer with
    | .failed e => .error 502 ("GitHub API request failed: " ++ e)
    | .status code =>  .error code ("GitHub API returned status " ++ toString code)
    | .undecodable => .error 500 "Failed to parse GitHub response"
    | .repos repos => .repos (repos.filter fun r => r.fullName ≠ "") false

def flattenJobStages (job : GHScanJob D) : List GHScanStage :=
  match job.results.head? with
  | some r => if r.stages ≠ [] then r.stages else job.stages
  | none => job.stages

def gitHubScanStatusHandler (tenantID id : String) (s : GHScanJobs D) : Response D :=
  match getGHScanJobForTenant tenantID id s with
  | some job => .job { job with stages := flattenJobStages job }
  | none => .notFound id

def gitHubScanListHandler (tenantID : String) (s : GHScanJobs D) : Response D :=
  .scans (listGHScanJobsForTenant tenantID s)

/-- The findings of the first repository of a job, the last one where two have one key. -/
def keyed (job : GHScanJob D) : List (String × GHFinding D) :=
  let findings : List (String × GHFinding D) := match job.results.head? with
    | some r => r.findings.map fun f => (rules.findingKey f.detail, f)
    | none => []
  findings.foldr (fun e es => if es.any (·.1 = e.1) then es else e :: es) []

def compareGHScans (current previous : GHScanJob D) : GHScanDiff D :=
  let curr := keyed rules current
  let prev := keyed rules previous
  { currentScan := current.id
    previousScan := previous.id
    new := (curr.filter fun e => !prev.any (·.1 = e.1)).map Prod.snd
    resolved := (prev.filter fun e => !curr.any (·.1 = e.1)).map Prod.snd
    unchanged := (curr.filter fun e => prev.any (·.1 = e.1)).map Prod.snd }

def gitHubScanCompareHandler (tenantID id against : String) (s : GHScanJobs D) : Response D :=
  match getGHScanJobForTenant tenantID id s with
  | none => .error 404 "scan not found"
  | some current =>
    match getGHScanJobForTenant tenantID against s with
    | none => .error 404 "comparison scan not found"
    | some previous => .diff (compareGHScans rules current previous)

/-- A scan that goes on beside the requests. -/
structure Scan where
  jobID : String
  token : String
  repos : List String
  deep : Bool
  started : Bool := false

/-- A scan that a delivery has set off. -/
structure PushScan where
  token : String
  repo : String

/-- The server of the deliveries, with the jobs and the scans that go on. -/
structure Service (D : Type) where
  hooks : Server := {}
  jobs : GHScanJobs D := {}
  scans : List Scan := []
  pushes : List PushScan := []

/-- A request, or a step of a scan; each reads the environment as it then is. A request that
does not parse brings the error of the parser. -/
inductive Event where
  | listRepos (environ : Environ) (now : String) (answer : Listing)
  | scan (environ : Environ) (tenantID jobID : String) (body : Except String GHScanRequest)
  | fetch (i : Nat)
  | complete (environ : Environ) (i : Nat) (github : GitHub) (uuid : Nat → String)
  | status (tenantID id : String)
  | list (tenantID : String)
  | compare (tenantID id against : String)
  | deliver (environ : Environ) (r : Delivery) (now : Time)
  | dispatch (environ : Environ) (i : Nat)
  | finish (environ : Environ) (i : Nat) (github : GitHub) (id : String)

/-- What is answered in a step: a request of the scanning routes, or a delivery. -/
abbrev Reply (D : Type) := Option (Response D ⊕ Answer)

def gitHubScanHandler (environ : Environ) (tenantID jobID : String)
    (body : Except String GHScanRequest) (st : Service D) : Response D × Service D :=
  let token := environ "GITHUB_TOKEN"
  if token = "" ∧ !demoModeEnabled cm environ then
    (.error 502 ("GitHub token not configured. Set GITHUB_TOKEN or enable DEMO_MODE for the " ++
      "synthetic fixture repository."), st)
  else
    match body with
    | .error e => (.error 400 e, st)
    | .ok req =>
      let demo := token = "" && demoModeEnabled cm environ
      let job : GHScanJob D :=
        { id := jobID, tenantID := Tenant.normalize tenantID, status := "queued", stage := "queued"
          stages := [⟨"queued", "Queued", "completed"⟩], demo }
      (.queued jobID req.repos.length demo,
        { st with
          jobs := storeGHScanJob job st.jobs
          scans := st.scans ++ [⟨jobID, token, req.repos, req.deepScan, false⟩] })

/-- The results of a scan, one for each of its repositories. -/
def scanned (environ : Environ) (github : GitHub) (uuid : Nat → String) (s : Scan) :
    List (GHScanResult D) :=
  s.repos.mapIdx fun n repo => scanGitHubRepo cm rules environ github (uuid n) s.token repo s.deep

/-- The end of a scan for a delivery, which is stored among the public jobs. -/
def pushed (result : GHScanResult D) : GHScanJob D where
  id := result.scanID
  tenantID := Tenant.publicTenantID
  status := result.status
  stage := "completed"
  results := [result]
  demo := result.demo

variable (hmac : Hmac) (unmarshal : Bytes → Option (String → Option Json))

/-- The repository for which a waiting delivery sets off a scan, if it does. -/
def starts (st : Service D) (i : Nat) : Option String :=
  match st.hooks.waiting[i]? with
  | none => none
  | some (r, payload) =>
    match (dispatch unmarshal r payload st.hooks.running).1, repository unmarshal payload with
    | .accepted _ _, .ok fullName => some fullName
    | _, _ => none

def step (st : Service D) : Event → Reply D × Service D
  | .listRepos environ now answer =>
    (some (.inl (gitHubRepoListHandler cm environ now answer)), st)
  | .scan environ tenantID jobID body =>
    let (r, st) := gitHubScanHandler cm environ tenantID jobID body st
    (some (.inl r), st)
  | .fetch i =>
    match st.scans[i]? with
    | none => (none, st)
    | some s =>
      if s.started then (none, st)
      else
        (none, { st with
          jobs := updateGHScanJob s.jobID fetching st.jobs
          scans := st.scans.set i { s with started := true } })
  | .complete environ i github uuid =>
    match st.scans[i]? with
    | none => (none, st)
    | some s =>
      if !s.started then (none, st)
      else
        let results := scanned cm rules environ github uuid s
        (none, { st with
          jobs := updateGHScanJob s.jobID (finished results) st.jobs
          scans := st.scans.eraseIdx i })
  | .status tenantID id => (some (.inl (gitHubScanStatusHandler tenantID id st.jobs)), st)
  | .list tenantID => (some (.inl (gitHubScanListHandler tenantID st.jobs)), st)
  | .compare tenantID id against =>
    (some (.inl (gitHubScanCompareHandler rules tenantID id against st.jobs)), st)
  | .deliver environ r now =>
    let (a, hooks) := Webhooks.step hmac unmarshal (settings environ) st.hooks (.deliver r now)
    (a.map fun a => .inr a.2, { st with hooks })
  | .dispatch environ i =>
    let (a, hooks) := Webhooks.step hmac unmarshal (settings environ) st.hooks (.dispatch i)
    let push := (starts unmarshal st i).map (PushScan.mk (environ "GITHUB_TOKEN"))
    (a.map fun a => .inr a.2, { st with hooks, pushes := st.pushes ++ push.toList })
  | .finish environ i github id =>
    match st.pushes[i]? with
    | none => (none, st)
    | some s =>
      let result := scanGitHubRepo cm rules environ github id s.token s.repo false
      (none, { st with
        hooks := { st.hooks with running := st.hooks.running - 1 }
        jobs := storeGHScanJob (pushed result) st.jobs
        pushes := st.pushes.eraseIdx i })

/-- The steps of a run with what was answered in each, and the service at its end. -/
def run (st : Service D) : List Event → List (Event × Reply D) × Service D
  | [] => ([], st)
  | e :: es =>
    let (a, st) := step cm rules hmac unmarshal st e
    let (answers, st) := run st es
    ((e, a) :: answers, st)

end RivicQ.Shared.GitHubScans
