import RivicQ.Auth.Permissions
import RivicQ.Auth.PublicRoutes

namespace RivicQ.Auth.RoutePermissions

open RivicQ.Lib.GoStrings RivicQ.Auth.Permissions RivicQ.Auth.PublicRoutes

/-- What the routes below a first path segment require. Without `write` the
resource is read-only, and `del` falls back to `write`. -/
structure ResourcePermissions where
  read : Option Permission
  write : Option Permission
  del : Option Permission := none

def resourcePermissionTable : List (String × ResourcePermissions) :=
  [("cbom", { read := some .cbomRead, write := some .cbomWrite, del := some .cbomDelete }),
    ("reports", { read := some .reportsRead, write := some .reportsWrite }),
    ("assets", { read := some .assetsRead, write := some .assetsWrite }),
    ("findings", { read := some .findingsRead, write := some .findingsWrite }),
    ("scans", { read := some .scansRead, write := some .scansStart }),
    ("pqc", { read := some .pqcRead, write := some .pqcAttest }),
    ("compliance", { read := some .complianceRead, write := some .complianceWrite }),
    ("governance", { read := some .complianceRead, write := some .complianceWrite }),
    ("controls", { read := some .complianceRead, write := some .complianceWrite }),
    ("users", { read := some .usersRead, write := some .usersManage }),
    ("audit", { read := some .auditRead, write := none }),
    ("apikeys", { read := some .apiKeysRead, write := some .apiKeysWrite }),
    ("api-keys", { read := some .apiKeysRead, write := some .apiKeysWrite }),
    ("webhooks", { read := some .webhooksRead, write := some .webhooksWrite }),
    ("sso", { read := none, write := some .ssoManage }),
    ("saml", { read := none, write := some .ssoManage }),
    ("ldap", { read := none, write := some .ssoManage }),
    ("cloud", { read := some .cloudRead, write := some .cloudManage }),
    ("aws", { read := some .cloudRead, write := some .cloudManage }),
    ("azure", { read := some .cloudRead, write := some .cloudManage }),
    ("gcp", { read := some .cloudRead, write := some .cloudManage }),
    ("gke", { read := some .cloudRead, write := some .cloudManage }),
    ("kms", { read := some .cloudRead, write := some .cloudManage }),
    ("hsm", { read := some .cloudRead, write := some .cloudManage }),
    ("hpcs", { read := some .cloudRead, write := some .cloudManage }),
    ("cos", { read := some .cloudRead, write := some .cloudManage }),
    ("cloudtrail", { read := some .cloudRead, write := some .cloudManage }),
    ("integrations", { read := none, write := some .integrations }),
    ("repos", { read := none, write := some .integrations }),
    ("github", { read := none, write := some .integrations }),
    ("google", { read := none, write := some .integrations }),
    ("billing", { read := none, write := some .billingManage }),
    ("events", { read := none, write := some .findingsWrite }),
    ("policies", { read := some .cbomRead, write := some .cbomWrite }),
    ("intelligence", { read := some .cbomRead, write := some .cbomWrite }),
    ("analytics", { read := some .reportsRead, write := some .reportsWrite }),
    ("cilium", { read := some .complianceRead, write := some .complianceWrite }),
    ("security", { read := some .findingsRead, write := some .findingsWrite }),
    ("kubernetes", { read := some .cloudRead, write := some .cloudManage }),
    ("monitoring", { read := none, write := some .integrations }),
    ("firmware", { read := some .cbomRead, write := some .scansStart }),
    ("identity", { read := some .cbomRead, write := some .scansStart })]

/-- Routes whose permission is not a function of their first segment; `none` asks
for no more than a session. -/
def exactPathPermissions : List (String × Option Permission) :=
  [("/auth/login", none),
    ("/auth/register", none),
    ("/auth/refresh", none),
    ("/auth/logout", none),
    ("/auth/forgot-password", none),
    ("/auth/reset-password", none),
    ("/auth/verify-email", none),
    ("/auth/change-password", none),
    ("/auth/mfa/setup", none),
    ("/auth/mfa/verify", none),
    ("/auth/mfa/confirm", none),
    ("/auth/mfa/disable", none),
    ("/auth/me", none),
    ("/auth/sessions", none),
    ("/auth/sessions/:id", none),
    ("/auth/workspace/users/:id/role", some .usersManage),
    ("/scan", some .scansStart),
    ("/ml-scan", some .scansStart),
    ("/security/ml-scan", some .scansStart)]

/-- The path below the mount point of the API. -/
def routePath (path : String) : String :=
  if path = apiPrefix then "/"
  else
    let trimmed := trimPrefix path (apiPrefix ++ "/")
    let path := if trimmed ≠ path then "/" ++ trimmed else path
    if path = "" then "/" else path

def resourceSegment (path : String) : String :=
  let path := trimPrefix path "/"
  match cut path '/' with
  | some (segment, _) => segment
  | none => path

/-- The permission a request needs, `some none` where a session is enough; `none`
where the permission model does not govern the route. -/
def requiredPermission (method path : String) : Option (Option Permission) :=
  let normalized := trimSuffix (routePath path) "/"
  let normalized := if normalized = "" then "/" else normalized
  match exactPathPermissions.lookup normalized with
  | some perm => some perm
  | none =>
    match resourcePermissionTable.lookup (resourceSegment normalized) with
    | none => none
    | some perms =>
      if method = "GET" ∨ method = "HEAD" then perms.read.map some
      else if method = "DELETE" then (perms.del.or perms.write).map some
      else perms.write.map some

def isMutatingMethod (method : String) : Bool :=
  method = "POST" || method = "PUT" || method = "PATCH" || method = "DELETE"

/-- What the middleware reads of a request and its context. -/
structure Request where
  method : String
  path : String
  permissions : Option (List String)
  role : String
  requestID : String

/-- Either the next handler runs, or the request is answered with a status and a
body. -/
inductive Verdict where
  | next
  | abort (status : Nat) (body : List (String × String))

def requireRoutePermission (cm : CaseMap) (c : Request) : Verdict :=
  if isPublicRoute cm c.method c.path then .next
  else
    match requiredPermission c.method c.path with
    | none =>
      if isMutatingMethod c.method then
        .abort 403
          [("error", "permission_not_defined"),
            ("message", "This operation is not covered by the permission model."),
            ("method", c.method),
            ("path", c.path),
            ("request_id", c.requestID)]
      else .next
    | some none => .next
    | some (some perm) =>
      if !hasPermission c.permissions perm then
        .abort 403
          [("error", "insufficient_permissions"),
            ("required", perm.text),
            ("message", "Your role does not grant this operation."),
            ("request_id", c.requestID),
            ("authenticated_role", normalizeRole cm c.role)]
      else .next

variable {mount path : String} {rest : List Char}

theorem routePath_auth (hm : mount = "" ∨ mount = apiPrefix)
    (h : path.toList = "/auth/".toList ++ rest) : routePath (mount ++ path) = path := by
  have hne : path ≠ "" := by
    rintro rfl
    simp at h
  unfold routePath
  obtain rfl | rfl := hm
  · have hapi : hasPrefix path (apiPrefix ++ "/") = false := by simp [hasPrefix, h, apiPrefix]
    rw [String.empty_append, if_neg]
    · simp [trimPrefix, hapi, hne]
    · rintro rfl
      simp [apiPrefix] at h
  · have hapi : hasPrefix (apiPrefix ++ path) (apiPrefix ++ "/") = true := by
      simp [hasPrefix, h, apiPrefix]
    have htrim : trimPrefix (apiPrefix ++ path) (apiPrefix ++ "/") =
        String.ofList ("auth/".toList ++ rest) := by
      rw [trimPrefix, if_pos hapi, String.toList_append, h]
      rfl
    have hback : "/" ++ String.ofList ("auth/".toList ++ rest) = path := by
      apply String.toList_inj.mp
      simp [h]
    have hshort : String.ofList ("auth/".toList ++ rest) ≠ apiPrefix ++ path := by
      intro he
      have he' := congrArg String.toList he
      simp [h, apiPrefix] at he'
    have hlong : apiPrefix ++ path ≠ apiPrefix := by
      intro he
      have he' := congrArg String.toList he
      simp [h, apiPrefix] at he'
    simp only [if_neg hlong, htrim, if_pos hshort, hback, if_neg hne]

theorem routePath_eq {q : String} (h : routePath path = q) (hq : q ≠ "/") :
    path = q ∨ path = apiPrefix ++ q := by
  unfold routePath at h
  by_cases hroot : path = apiPrefix
  · rw [if_pos hroot] at h
    exact absurd h.symm hq
  rw [if_neg hroot] at h
  by_cases hpre : hasPrefix path (apiPrefix ++ "/") = true
  · obtain ⟨rest, hrest⟩ := of_decide_eq_true hpre
    have htrim : trimPrefix path (apiPrefix ++ "/") = String.ofList rest := by
      rw [trimPrefix, if_pos hpre, ← hrest]
      exact congrArg String.ofList (List.drop_left' rfl)
    have hne : String.ofList rest ≠ path := by
      intro he
      rw [← he, String.toList_ofList] at hrest
      have hlength := congrArg List.length hrest
      rw [List.length_append] at hlength
      have hslash : 0 < (apiPrefix ++ "/").toList.length := by decide
      omega
    have hpath : "/" ++ String.ofList rest ≠ "" := by
      intro he
      exact absurd (congrArg String.toList he) (by simp)
    simp only [htrim, if_pos hne, if_neg hpath] at h
    right
    rw [← h]
    apply String.toList_inj.mp
    simp [← hrest, apiPrefix]
  · have htrim : trimPrefix path (apiPrefix ++ "/") = path := if_neg hpre
    simp only [htrim, ne_eq, not_true_eq_false, if_false] at h
    split at h
    · exact absurd h.symm hq
    · exact Or.inl h

theorem trimSuffix_eq {s q : String} (h : trimSuffix s "/" = q) : s = q ∨ s = q ++ "/" := by
  unfold trimSuffix at h
  split at h
  · rename_i hsuffix
    obtain ⟨a, ha⟩ := of_decide_eq_true hsuffix
    right
    rw [← h]
    apply String.toList_inj.mp
    rw [String.toList_append, String.toList_ofList, ← ha, List.rdrop, List.length_append]
    exact congrArg (· ++ _) (List.take_left' (Nat.add_sub_cancel ..).symm).symm
  · exact Or.inl h

theorem resourceSegment_auth (h : path.toList = "/auth/".toList ++ rest) :
    resourceSegment path = "auth" := by
  have htrim : trimPrefix path "/" = String.ofList ("auth/".toList ++ rest) := by
    have hslash : hasPrefix path "/" = true := by simp [hasPrefix, h]
    rw [trimPrefix, if_pos hslash, h]
    rfl
  simp only [resourceSegment, htrim, cut]
  simp

/-- Below `/auth` only the exact entries govern a route. -/
theorem requiredPermission_auth (hm : mount = "" ∨ mount = apiPrefix)
    (h : path.toList = "/auth/".toList ++ rest) (hlast : path.toList.getLast? ≠ some '/')
    (method : String) :
    requiredPermission method (mount ++ path) = exactPathPermissions.lookup path := by
  have htrim : trimSuffix path "/" = path := by
    refine if_neg fun hsuffix => hlast ?_
    obtain ⟨a, ha⟩ := of_decide_eq_true hsuffix
    rw [← ha, List.getLast?_append]
    rfl
  have hne : path ≠ "" := by
    rintro rfl
    simp at h
  unfold requiredPermission
  rw [routePath_auth hm h, htrim]
  extract_lets normalized normalized'
  rw [show normalized' = path from if_neg hne]
  cases exactPathPermissions.lookup path with
  | some perm => rfl
  | none =>
    rw [resourceSegment_auth h]
    rfl

end RivicQ.Auth.RoutePermissions
