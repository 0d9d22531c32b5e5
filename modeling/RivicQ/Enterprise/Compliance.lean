import RivicQ.Lib.Statements
import RivicQ.Lib.Tables

namespace RivicQ.Enterprise.Compliance

open RivicQ.Lib.Tables RivicQ.Lib.Scanning

abbrev UUID := BitVec 128

/-- Readings of the clock of the server, in nanoseconds. -/
abbrev Time := Int

/-- A row of `compliance_frameworks`. -/
structure Framework where
  id : UUID
  tenantID : UUID
  framework : String
  scope : Option String
  controls : Option String
  status : Option String
  score : Option Int
  lastAuditAt : Option Time
  nextAuditAt : Option Time
  delveIntegration : Option Bool
  kertosIntegration : Option Bool
  updatedAt : Time
  deriving DecidableEq

/-- A row of `compliance_controls`, which has no tenant of its own. -/
structure Control where
  id : UUID
  frameworkID : UUID
  controlID : String
  title : String
  description : Option String
  category : Option String
  subCategory : Option String
  severity : Option String
  status : Option String
  evidence : Option String
  remediation : Option String
  automated : Option Bool
  lastCheckedAt : Option Time
  deriving DecidableEq

/-- A row of `terraform_assets`. -/
structure TerraformAsset where
  id : UUID
  tenantID : UUID
  terraformStateID : Option String
  workspace : Option String
  moduleSource : Option String
  moduleVersion : Option String
  resourceType : String
  resourceName : String
  provider : Option String
  cloudProvider : Option String
  region : Option String
  configuration : Option String
  securityFindings : Option String
  complianceViolations : Option String
  lastPlanAt : Option Time
  lastApplyAt : Option Time
  deriving DecidableEq

@[ext]
structure Database where
  frameworks : List Framework
  controls : List Control
  terraformAssets : List TerraformAsset
  frameworks_nodup : (frameworks.map Framework.id).Nodup
  terraformAssets_nodup : (terraformAssets.map TerraformAsset.id).Nodup

/-- The packages and the server the handlers rely on: the parser of UUIDs, the text of one,
whether a document unmarshals into a map, and whether a row keeps the constraints of its
table. -/
structure Backend where
  parseUUID : String → Option UUID
  uuidText : UUID → String
  unmarshals : String → Bool
  admissible : Framework → Bool

structure FrameworkUpdate where
  scope : String
  status : String
  score : Int

inductive Request where
  | getFramework (id : String)
  | updateFramework (id : String) (body : Except String FrameworkUpdate)
  | listControls (id : String)
  | getComplianceDashboard (id : String)
  | getTerraformResource (id : String)

/-- A request of a caller, who belongs to a tenant. The server may fail to answer. -/
structure Call where
  tenantID : UUID
  request : Request
  now : Time
  fault : Bool := false

/-- What the answer shows of a framework. -/
structure FrameworkView where
  id : UUID
  tenantID : UUID
  framework : String
  scope : String
  status : String
  score : Option Int
  lastAuditAt : Option Time
  nextAuditAt : Option Time
  delveIntegration : Bool
  kertosIntegration : Bool
  deriving DecidableEq

structure ComplianceDashboard where
  framework : String
  status : String
  score : Int
  totalControls : Nat
  passedControls : Nat
  failedControls : Nat
  pendingControls : Nat
  lastAudit : Time
  nextAudit : Time
  delveConnected : Bool
  kertosConnected : Bool
  deriving DecidableEq

inductive Response where
  | error (status : Nat) (message : String)
  | message (text : String)
  | framework (view : FrameworkView)
  | controls (rows : List Control)
  | dashboard (dashboard : ComplianceDashboard)
  | resource (row : TerraformAsset)
  deriving DecidableEq

variable (sv : Backend)

def frameworkColumns (f : Framework) : List Value :=
  [.text (sv.uuidText f.id), .text (sv.uuidText f.tenantID), .text f.framework,
    nullable .text f.scope, nullable .text f.controls, nullable .text f.status,
    nullable .int f.score, nullable .time f.lastAuditAt, nullable .time f.nextAuditAt,
    nullable .bool f.delveIntegration, nullable .bool f.kertosIntegration]

def frameworkDests : List Dest :=
  [.uuid, .uuid, .string, .string, .bytes, .string, .pointer .int, .pointer .time,
    .pointer .time, .bool, .bool]

def frameworkView (f : Framework) : FrameworkView where
  id := f.id
  tenantID := f.tenantID
  framework := f.framework
  scope := f.scope.getD ""
  status := f.status.getD ""
  score := f.score
  lastAuditAt := f.lastAuditAt
  nextAuditAt := f.nextAuditAt
  delveIntegration := f.delveIntegration.getD false
  kertosIntegration := f.kertosIntegration.getD false

def getFramework (id : String) (fault : Bool) (db : Database) : Response :=
  match sv.parseUUID id with
  | none => .error 400 "Invalid framework ID"
  | some frameworkID =>
    if fault then .error 404 "Framework not found"
    else
      match rowWith Framework.id frameworkID db.frameworks with
      | none => .error 404 "Framework not found"
      | some f =>
        if scan frameworkDests (frameworkColumns sv f) then .framework (frameworkView f)
        else .error 404 "Framework not found"

/-- What the update makes of a row. -/
def FrameworkUpdate.apply (u : FrameworkUpdate) (now : Time) (f : Framework) : Framework :=
  { f with
    scope := if u.scope = "" then f.scope else some u.scope
    status := if u.status = "" then f.status else some u.status
    score := if 0 < u.score then some u.score else f.score
    updatedAt := now }

@[simp] theorem FrameworkUpdate.apply_id (u : FrameworkUpdate) (now : Time) (f : Framework) :
    (u.apply now f).id = f.id := rfl

@[simp] theorem FrameworkUpdate.apply_tenantID (u : FrameworkUpdate) (now : Time)
    (f : Framework) : (u.apply now f).tenantID = f.tenantID := rfl

/-- The range of the type `INTEGER`. -/
def IsInteger (n : Int) : Prop := -2147483648 ≤ n ∧ n ≤ 2147483647

instance (n : Int) : Decidable (IsInteger n) := inferInstanceAs (Decidable (_ ∧ _))

def Database.updateFramework (u : FrameworkUpdate) (now : Time) (id : UUID) (db : Database) :
    Database :=
  { db with
    frameworks := updateWhere (fun f => f.id = id) (u.apply now) db.frameworks
    frameworks_nodup := nodup_updateWhere (u.apply_id now) db.frameworks_nodup }

/-- The server turns an update down where a row it writes would break a constraint. -/
def accepted (u : FrameworkUpdate) (now : Time) (id : UUID) (db : Database) : Bool :=
  IsInteger u.score && (rowWith Framework.id id db.frameworks).all fun f =>
    sv.admissible (u.apply now f)

def updateFramework (id : String) (body : Except String FrameworkUpdate) (now : Time)
    (fault : Bool) (db : Database) : Response × Database :=
  match sv.parseUUID id with
  | none => (.error 400 "Invalid framework ID", db)
  | some frameworkID =>
    match body with
    | .error e => (.error 400 e, db)
    | .ok u =>
      if fault || !accepted sv u now frameworkID db then
        (.error 500 "Failed to update framework", db)
      else (.message "Framework updated successfully", db.updateFramework u now frameworkID)

def controlColumns (c : Control) : List Value :=
  [.text (sv.uuidText c.id), .text (sv.uuidText c.frameworkID), .text c.controlID, .text c.title,
    nullable .text c.description, nullable .text c.category, nullable .text c.subCategory,
    nullable .text c.severity, nullable .text c.status, nullable .text c.evidence,
    nullable .text c.remediation, nullable .bool c.automated, nullable .time c.lastCheckedAt]

/-- There is no variable for the subcategory. -/
def controlDests : List Dest :=
  [.uuid, .uuid, .string, .string, .string, .string, .string, .string, .bytes, .string, .bool,
    .pointer .time]

/-- Rows that cannot be read are passed over. -/
def listControls (id : String) (fault : Bool) (db : Database) : Response :=
  match sv.parseUUID id with
  | none => .error 400 "Invalid framework ID"
  | some frameworkID =>
    if fault then .error 500 "Failed to list controls"
    else .controls (db.controls.filter fun c => c.frameworkID = frameworkID &&
      scan controlDests (controlColumns sv c) && c.evidence.any sv.unmarshals)

/-- The controls of a framework, or those of a status. -/
def countControls (id : UUID) (p : Control → Bool) (db : Database) : Nat :=
  db.controls.countP fun c => c.frameworkID = id && p c

def dashboardColumns (f : Framework) (db : Database) : List Value :=
  let count p := Value.int (countControls f.id p db)
  [.text f.framework, nullable .text f.status, nullable .int f.score, nullable .time f.lastAuditAt,
    nullable .time f.nextAuditAt, nullable .bool f.delveIntegration,
    nullable .bool f.kertosIntegration, count fun _ => true,
    count (·.status = some "passed"), count (·.status = some "failed"),
    count (·.status = some "pending")]

/-- The score is read into a plain number here. -/
def dashboardDests : List Dest :=
  [.string, .string, .int, .pointer .time, .pointer .time, .bool, .bool, .int, .int, .int, .int]

/-- Ninety days. -/
def auditPeriod : Time := 7776000000000000

def complianceDashboard (f : Framework) (now : Time) (db : Database) : ComplianceDashboard where
  framework := f.framework
  status := f.status.getD ""
  score := f.score.getD 0
  totalControls := countControls f.id (fun _ => true) db
  passedControls := countControls f.id (·.status = some "passed") db
  failedControls := countControls f.id (·.status = some "failed") db
  pendingControls := countControls f.id (·.status = some "pending") db
  lastAudit := now
  nextAudit := now + auditPeriod
  delveConnected := f.delveIntegration.getD false
  kertosConnected := f.kertosIntegration.getD false

def getComplianceDashboard (id : String) (now : Time) (fault : Bool) (db : Database) : Response :=
  match sv.parseUUID id with
  | none => .error 400 "Invalid framework ID"
  | some frameworkID =>
    if fault then .error 404 "Framework not found"
    else
      match rowWith Framework.id frameworkID db.frameworks with
      | none => .error 404 "Framework not found"
      | some f =>
        if scan dashboardDests (dashboardColumns f db) then
          .dashboard (complianceDashboard f now db)
        else .error 404 "Framework not found"

def terraformColumns (t : TerraformAsset) : List Value :=
  [.text (sv.uuidText t.id), .text (sv.uuidText t.tenantID), nullable .text t.terraformStateID,
    nullable .text t.workspace, nullable .text t.moduleSource, nullable .text t.moduleVersion,
    .text t.resourceType, .text t.resourceName, nullable .text t.provider,
    nullable .text t.cloudProvider, nullable .text t.region, nullable .text t.configuration,
    nullable .text t.securityFindings, nullable .text t.complianceViolations,
    nullable .time t.lastPlanAt, nullable .time t.lastApplyAt]

/-- The documents are read into a map and into slices of records. -/
def terraformDests : List Dest :=
  [.uuid, .uuid, .string, .string, .string, .string, .string, .string, .string, .string, .string,
    .composite, .composite, .composite, .pointer .time, .pointer .time]

def getTerraformResource (id : String) (fault : Bool) (db : Database) : Response :=
  match sv.parseUUID id with
  | none => .error 400 "Invalid resource ID"
  | some resourceID =>
    if fault then .error 404 "Resource not found"
    else
      match rowWith TerraformAsset.id resourceID db.terraformAssets with
      | none => .error 404 "Resource not found"
      | some t =>
        if scan terraformDests (terraformColumns sv t) then .resource t
        else .error 404 "Resource not found"

def step (db : Database) (c : Call) : Response × Database :=
  match c.request with
  | .getFramework id => (getFramework sv id c.fault db, db)
  | .updateFramework id body => updateFramework sv id body c.now c.fault db
  | .listControls id => (listControls sv id c.fault db, db)
  | .getComplianceDashboard id => (getComplianceDashboard sv id c.now c.fault db, db)
  | .getTerraformResource id => (getTerraformResource sv id c.fault db, db)

end RivicQ.Enterprise.Compliance
