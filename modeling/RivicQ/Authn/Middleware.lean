import RivicQ.Authn.Gate
import RivicQ.Authn.Operations

namespace RivicQ.Authn.Handlers

open RivicQ.Lib.GoStrings RivicQ.Authn.Types RivicQ.Authn.Environment RivicQ.Authn.Operations

structure UserResponse where
  id : String
  name : String
  email : String
  role : String
  deriving DecidableEq

def toUserResponse (u : User) : UserResponse := ⟨u.id, u.name, u.email, u.role.text⟩

/-- `PATCH /auth/me`, from the caller's id and the `name` of the body; a body that
does not parse is `none`. -/
def patchMe (callerID : String) (body : Option String) : Prog UserResponse :=
  match body with
  | none => fail (.http 400 "Invalid JSON")
  | some name =>
    if trimSpace name = "" then fail (.http 400 "Name is required")
    else
      orFail (lookupByID callerID) (.http 401 "User not found") fun u =>
      let u := { u with name := trimSpace name }
      orFail (updateUser u) (.http 500 "Failed to update profile") fun _ =>
      done (toUserResponse u)

/-- `GET /auth/workspace/users`, from the caller's tenant. -/
def listWorkspaceUsers (callerTenant : String) : Prog (List UserResponse × String) :=
  orFail (listUsersByTenant callerTenant) (.http 500 "Failed to list users") fun users =>
  done (users.map toUserResponse, callerTenant)

/-- `PATCH /auth/workspace/users/:id/role`, from the caller's id and tenant, the
path parameter and the `role` of the body. -/
def patchWorkspaceRole (cm : CaseMap) (callerID callerTenant id : String) (body : Option String) :
    Prog UserResponse :=
  match body with
  | none => fail (.http 400 "role is required")
  | some role =>
    let raw := toLower cm (trimSpace role)
    if raw ∉ ["viewer", "analyst", "operator", "admin"] then
      fail (.http 400 "role must be viewer, analyst, operator, or admin")
    else
      orFail (lookupByID id) (.http 404 "User not found") fun target =>
      if target.tenantID ≠ callerTenant then fail (.http 403 "User is not in this workspace")
      else
        let role := normalizeRole cm raw
        if target.id = callerID ∧ role ≠ .admin then
          fail (.http 400 "You cannot remove your own admin role")
        else
          let target := { target with role := role }
          orFail (updateUser target) (.http 500 "Failed to update role") fun _ =>
          done (toUserResponse target)

end RivicQ.Authn.Handlers

namespace RivicQ.Authn.Middleware

open RivicQ.Lib.GoStrings RivicQ.Lib.Programs RivicQ.Authn.Types RivicQ.Authn.Environment
open RivicQ.Authn.Gate RivicQ.Authn.Handlers

/-- What a request carries beside its path and body. -/
structure Request where
  authorization : String
  accessToken : String
  requestID : String

/-- An answer given before the handler is reached. -/
structure Abort where
  status : Nat
  headers : List (String × String)
  body : List (String × String)

variable (cm : CaseMap) (parseWithClaims : Parser) (cfg : Config)

def abortUnauthorized (c : Request) (message : String) : Abort where
  status := 401
  headers := [("WWW-Authenticate", "Bearer realm=\"rivicq\"")]
  body := [("error", "unauthorized"), ("message", message), ("request_id", c.requestID)]

def authenticateMiddleware (now : Time) (c : Request) : Except Abort Bindings :=
  let raw := bearerToken cm c.authorization
  let raw := if raw = "" then trimSpace c.accessToken else raw
  if raw = "" then .error (abortUnauthorized c "authentication required")
  else
    match verify parseWithClaims cfg raw now with
    | .error _ => .error (abortUnauthorized c "invalid or expired token")
    | .ok claims => .ok (bindings cm claims)

def requireRole (roles : List Role) (c : Request) (b : Bindings) : Except Abort Bindings :=
  let role := normalizeRole cm b.role
  if role ∉ roles then
    .error {
      status := 403
      headers := []
      body := [("error", "insufficient_role"),
        ("message", "Your role does not grant this operation."),
        ("authenticated_role", role.text), ("request_id", c.requestID)] }
  else .ok b

/-- What the handlers of the workspace group learn of their caller. -/
def workspaceCaller (now : Time) (c : Request) : Except Abort Bindings :=
  match authenticateMiddleware cm parseWithClaims cfg now c with
  | .error a => .error a
  | .ok b => requireRole cm [.admin] c b

/-- `PATCH /auth/workspace/users/:id/role` with its middleware. -/
def patchWorkspaceRoleRoute (now : Time) (c : Request) (id : String) (body : Option String) :
    Program Calls (Except Abort (Except Err UserResponse)) :=
  match workspaceCaller cm parseWithClaims cfg now c with
  | .error a => .pure (.error a)
  | .ok b => (patchWorkspaceRole cm b.userID b.tenantID id body).bind fun r => .pure (.ok r)

end RivicQ.Authn.Middleware
