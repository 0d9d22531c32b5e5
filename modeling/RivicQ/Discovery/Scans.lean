import Mathlib.Data.Multiset.Basic
import RivicQ.Discovery.SafeDial
import RivicQ.Discovery.Targets
import RivicQ.Lib.Tables

namespace RivicQ.Discovery.Scanners

open RivicQ.Lib.GoStrings RivicQ.Lib.Programs
open RivicQ.Discovery.Network RivicQ.Discovery.Policies RivicQ.Discovery.SafeDial
open RivicQ.Discovery.LocalPaths RivicQ.Discovery.Validation RivicQ.Discovery.Targets

variable (m : Machine) (p : TargetPolicy)

def targetAddr (target : Target) : String := target.host ++ ":" ++ toString target.port

def tlsScan (target : Target) : Prog (Except Err Unit) :=
  (dialContext m.cases p "tcp" (targetAddr target)).bind fun
    | .error e => .pure (.error (.wrapped ("connect " ++ targetAddr target) e))
    | .ok conn =>
      .request (.tlsHandshake conn) fun
        | .error message =>
          .pure (.error (.failed ("tls handshake " ++ targetAddr target) message))
        | .ok _ => .pure (.ok ())

/-- A handshake that failed for want of credentials only. -/
def reachedAuth (message : String) : Bool :=
  contains message "unable to authenticate" || contains message "no supported methods remain"

/-- A second probe of the server, with a dialer of its own. -/
def scanBanner (target : Target) : Prog (Except Err Unit) :=
  (dial "tcp" (targetAddr target)).bind fun
    | .error e => .pure (.error (.wrapped ("dial " ++ targetAddr target) e))
    | .ok conn => .request (.sshClientConn conn (targetAddr target)) fun _ => .pure (.ok ())

def sshScan (target : Target) : Prog (Except Err Unit) :=
  (dialContext m.cases p "tcp" (targetAddr target)).bind fun
    | .error e => .pure (.error (.wrapped ("dial " ++ targetAddr target) e))
    | .ok conn =>
      .request (.sshClientConn conn (targetAddr target)) fun
        | .ok _ => .pure (.ok ())
        | .error message => if reachedAuth message then .pure (.ok ()) else scanBanner target

/-- The connections a transport opens for one request. -/
def openConns (hop : Hop) : Nat → List Conn → Prog (List Conn)
  | 0, conns => .pure conns
  | n + 1, conns =>
    (dialContext m.cases p "tcp" hop.addr).bind fun
      | .error _ => openConns hop n conns
      | .ok conn => openConns hop n (conns ++ [conn])

/-- One request of a client, with what is done about a redirect. -/
def exchange (hop : Hop) (redirect : Hop → Prog (Except Err Unit)) : Prog (Except Err Unit) :=
  .request (.connections hop) fun n =>
    (openConns m p hop n []).bind fun conns =>
      .request (.roundTrip hop conns) fun
        | .error message => .pure (.error (.failed "" message))
        | .ok none => .pure (.ok ())
        | .ok (some next) => redirect next

/-- A client that still follows some redirects, each to a target the policy accepts. -/
def clientDo : Nat → Hop → Prog (Except Err Unit)
  | 0, hop => exchange m p hop fun _ => .pure (.ok ())
  | n + 1, hop =>
    exchange m p hop fun next =>
      (validateTarget m p next.hostname).bind fun
        | .error e => .pure (.error (.wrapped "redirect blocked" e))
        | .ok _ => clientDo n next

def httpScheme (target : Target) : String :=
  let s := toLower m.cases (trimSpace target.scheme)
  if s = "http" || s = "https" then s else if target.port = 443 then "https" else "http"

def httpScan (target : Target) : Prog (Except Err Unit) :=
  let scheme := httpScheme m target
  let port := if target.port = 0 then (if scheme = "https" then 443 else 80) else target.port
  let baseURL := scheme ++ "://" ++ target.host ++ ":" ++ toString port
  .request (.parseURL (baseURL ++ "/?data=test")) fun
    | .error message => .pure (.error (.failed "build request" message))
    | .ok hop =>
      (clientDo m p 4 hop).bind fun
        | .error e => .pure (.error (.wrapped ("http get " ++ baseURL) e))
        | .ok _ => .pure (.ok ())

/-- The network side of the scan of one target. -/
def scanTarget (target : Target) : Prog (Except Err Unit) :=
  if target.protocol = "tls" then tlsScan m p target
  else if target.protocol = "ssh" then sshScan m p target
  else if target.protocol = "http" then httpScan m p target
  else .pure (.ok ())

/-- The scans that go on side by side. -/
def scanAll (targets : List Target) : List (Prog (Except Err Unit)) := targets.map (scanTarget m p)

end RivicQ.Discovery.Scanners

namespace RivicQ.Discovery.Scans

open RivicQ.Lib.GoStrings RivicQ.Lib.Programs RivicQ.Lib.Tables RivicQ.Lib.Traces
open RivicQ.Discovery.Network RivicQ.Discovery.LocalPaths RivicQ.Discovery.Targets

abbrev Time := Nat

inductive Status where
  | pending
  | running
  | completed
  | failed
  deriving DecidableEq

structure ScanJob (R : Type) where
  id : String
  assetID : String
  target : String
  scanType : String
  status : Status
  progress : Nat
  result : Option R := none
  error : String := ""
  createdAt : Time
  updatedAt : Time
  tenantID : String

/-- The scans, and under tenant and asset the latest result. -/
structure ScanManager (R : Type) where
  jobs : Table (ScanJob R)
  results : Table R

/-- Identifiers made from a text, as `uuid.NewSHA1` and `String` make them. -/
structure Names where
  sha1 : String → String
  slashless : ∀ s, '/' ∉ (sha1 s).toList

namespace Tenant

def publicTenantID : String := "00000000-0000-0000-0000-000000000001"

def normalize (tenantID : String) : String :=
  if trimSpace tenantID = "" then publicTenantID else trimSpace tenantID

end Tenant

def resultKey (tenantID assetID : String) : String := Tenant.normalize tenantID ++ "/" ++ assetID

variable {R : Type} (names : Names) (m : Machine)

def assetIDFor (target : String) : String := names.sha1 (trimSpace target)

/-- What a scan asks of its surroundings, and the sections it runs under the lock of
the manager. -/
inductive ScanRequest (R : Type) where
  | validateTarget (target : String)
  | newUUID
  | now
  | scanAll (targets : List Target)
  | store (job : ScanJob R)
  | running (id : String)
  | progress (id : String) (percent : Nat)
  | fail (id : String) (updated : Time) (message : String)
  | complete (id : String) (updated : Time) (result : R)

/-- The replies. On completion the persist function answers, where one is installed. -/
def ScanRequest.Reply : ScanRequest R → Type
  | .validateTarget _ => Except Err Unit
  | .newUUID => String
  | .now => Time
  | .scanAll _ => Except String R
  | .store _ => Unit
  | .running _ => Unit
  | .progress _ _ => Unit
  | .fail _ _ _ => Unit
  | .complete _ _ _ => Option (Except String String)

def Scanning (R : Type) : Signature where
  Op := ScanRequest R
  Reply := ScanRequest.Reply
  yields _ := true

/-- A scan as a tenant submits it. -/
structure Submission where
  tenantID : String
  target : String
  scanType : String

def startScanForTenant (s : Submission) : Program (Scanning R) (Except Err (ScanJob R)) :=
  .request (.validateTarget s.target) fun
    | .error e => .pure (.error e)
    | .ok _ =>
      .request .newUUID fun (id : String) =>
        .request .now fun (created : Time) =>
          .request .now fun (updated : Time) =>
            let job : ScanJob R :=
              { id := id, assetID := assetIDFor names s.target, target := s.target
                scanType := s.scanType, status := .pending, progress := 0
                createdAt := created, updatedAt := updated, tenantID := Tenant.normalize s.tenantID }
            .request (.store job) fun _ => .pure (.ok job)

def executeScan (job : ScanJob R) : Program (Scanning R) Unit :=
  .request (.running job.id) fun _ =>
    .request (.progress job.id 30) fun _ =>
      .request (.scanAll (buildTargets m job.target job.scanType)) fun outcome =>
        .request .now fun (updated : Time) =>
          match outcome with
          | .error message => .request (.fail job.id updated message) fun _ => .pure ()
          | .ok result => .request (.complete job.id updated result) fun _ => .pure ()

/-- A submission with the scan it sets off. -/
def scan (s : Submission) : Program (Scanning R) Unit :=
  (startScanForTenant names s).bind fun
    | .error _ => .pure ()
    | .ok job => executeScan m job

namespace ScanManager

/-- Write to the job with an identifier. -/
def updateJob (f : ScanJob R → ScanJob R) (id : String) (sm : ScanManager R) : ScanManager R :=
  match sm.jobs.lookup id with
  | none => sm
  | some job => { sm with jobs := sm.jobs.insert id (f job) }

/-- The asset a completed job is indexed by. -/
def completedAsset (persisted : Option (Except String String)) (job : ScanJob R) : String :=
  let assetID := if job.assetID = "" then assetIDFor names job.target else job.assetID
  match persisted with
  | some (.ok id) => if id ≠ "" then id else assetID
  | _ => assetID

def completed (updated : Time) (result : R) (persisted : Option (Except String String))
    (job : ScanJob R) : ScanJob R :=
  { job with
    updatedAt := updated, result := some result, status := .completed, progress := 100
    assetID := completedAsset names persisted job }

def complete (id : String) (updated : Time) (result : R)
    (persisted : Option (Except String String)) (sm : ScanManager R) : ScanManager R :=
  match sm.jobs.lookup id with
  | none => sm
  | some job =>
    let done := completed names updated result persisted job
    { jobs := sm.jobs.insert id done
      results := sm.results.insert (resultKey done.tenantID done.assetID) result }

/-- The manager after a section under its lock; other requests leave it as it is. -/
def apply (sm : ScanManager R) : Event (Scanning R) → ScanManager R
  | ⟨.store job, _⟩ => { sm with jobs := sm.jobs.insert job.id job }
  | ⟨.running id, _⟩ => sm.updateJob (fun job => { job with status := .running, progress := 10 }) id
  | ⟨.progress id percent, _⟩ => sm.updateJob (fun job => { job with progress := percent }) id
  | ⟨.fail id updated message, _⟩ =>
    sm.updateJob (fun job =>
      { job with updatedAt := updated, status := .failed, error := message, progress := 0 }) id
  | ⟨.complete id updated result, persisted⟩ => sm.complete names id updated result persisted
  | _ => sm

def empty : ScanManager R := ⟨∅, ∅⟩

/-- The manager after what scans that go on side by side have done. -/
def after (es : List (Nat × Event (Scanning R))) : ScanManager R :=
  es.foldl (fun sm e => sm.apply names e.2) empty

def getResultForTenant (tenantID assetID : String) (sm : ScanManager R) : Option R :=
  sm.results.lookup (resultKey tenantID assetID)

def getScan (id : String) (sm : ScanManager R) : Option (ScanJob R) := sm.jobs.lookup id

def getScanForTenant (tenantID id : String) (sm : ScanManager R) : Option (ScanJob R) :=
  (sm.getScan id).filter fun job => Tenant.normalize job.tenantID = Tenant.normalize tenantID

/-- The scans of a tenant; a Go map lists its values in no particular order. -/
def listScansForTenant (tenantID : String) (sm : ScanManager R) : Multiset (ScanJob R) :=
  ↑(sm.jobs.values.filter fun job => Tenant.normalize job.tenantID = Tenant.normalize tenantID)

end ScanManager

end RivicQ.Discovery.Scans
