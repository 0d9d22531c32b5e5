import RivicQ.Lib.GoStrings
import Mathlib.Data.List.Sort

namespace RivicQ.Auth.Permissions

open RivicQ.Lib.GoStrings

/-- A server-side authorization capability. -/
inductive Permission where
  | cbomRead
  | cbomWrite
  | cbomDelete
  | assetsRead
  | assetsWrite
  | findingsRead
  | findingsWrite
  | findingsIgnore
  | scansRead
  | scansStart
  | pqcRead
  | pqcAttest
  | pqcAdminister
  | complianceRead
  | complianceWrite
  | reportsRead
  | reportsWrite
  | usersRead
  | usersManage
  | auditRead
  | apiKeysRead
  | apiKeysWrite
  | webhooksRead
  | webhooksWrite
  | cloudRead
  | cloudManage
  | ssoManage
  | integrations
  | billingManage
  deriving DecidableEq

def Permission.text : Permission → String
  | .cbomRead => "cbom:read"
  | .cbomWrite => "cbom:write"
  | .cbomDelete => "cbom:delete"
  | .assetsRead => "assets:read"
  | .assetsWrite => "assets:write"
  | .findingsRead => "findings:read"
  | .findingsWrite => "findings:write"
  | .findingsIgnore => "findings:ignore"
  | .scansRead => "scans:read"
  | .scansStart => "scans:start"
  | .pqcRead => "pqc:read"
  | .pqcAttest => "pqc:attest"
  | .pqcAdminister => "pqc:administer"
  | .complianceRead => "compliance:read"
  | .complianceWrite => "compliance:write"
  | .reportsRead => "reports:read"
  | .reportsWrite => "reports:write"
  | .usersRead => "users:read"
  | .usersManage => "users:manage"
  | .auditRead => "audit:read"
  | .apiKeysRead => "apikeys:read"
  | .apiKeysWrite => "apikeys:write"
  | .webhooksRead => "webhooks:read"
  | .webhooksWrite => "webhooks:write"
  | .cloudRead => "cloud:read"
  | .cloudManage => "cloud:manage"
  | .ssoManage => "sso:manage"
  | .integrations => "integrations:manage"
  | .billingManage => "billing:manage"

/-- The four persisted roles, with what each may do. -/
def rolePermissions : String → Option (List Permission)
  | "admin" =>
    some [.cbomRead, .cbomWrite, .cbomDelete, .assetsRead, .assetsWrite, .findingsRead,
      .findingsWrite, .findingsIgnore, .scansRead, .scansStart, .pqcRead, .pqcAttest,
      .pqcAdminister, .complianceRead, .complianceWrite, .reportsRead, .reportsWrite,
      .usersRead, .usersManage, .auditRead, .apiKeysRead, .apiKeysWrite, .webhooksRead,
      .webhooksWrite, .cloudRead, .cloudManage, .ssoManage, .integrations, .billingManage]
  | "operator" =>
    some [.cbomRead, .cbomWrite, .assetsRead, .assetsWrite, .findingsRead, .findingsWrite,
      .scansRead, .scansStart, .pqcRead, .pqcAttest, .complianceRead, .reportsRead,
      .reportsWrite, .usersRead, .auditRead, .apiKeysRead, .webhooksRead, .cloudRead,
      .integrations, .billingManage]
  | "analyst" =>
    some [.cbomRead, .assetsRead, .findingsRead, .scansRead, .scansStart, .pqcRead,
      .complianceRead, .reportsRead, .reportsWrite, .auditRead, .cloudRead]
  | "viewer" =>
    some [.cbomRead, .assetsRead, .findingsRead, .scansRead, .pqcRead, .complianceRead,
      .reportsRead, .cloudRead]
  | _ => none

def roleAliases : String → Option String
  | "owner" => some "admin"
  | "administrator" => some "admin"
  | "security manager" => some "admin"
  | "security-manager" => some "admin"
  | "security_manager" => some "admin"
  | "security analyst" => some "analyst"
  | "security-analyst" => some "analyst"
  | "security_analyst" => some "analyst"
  | "developer" => some "operator"
  | _ => none

def roleRank : String → Option Nat
  | "viewer" => some 1
  | "analyst" => some 2
  | "operator" => some 3
  | "admin" => some 4
  | _ => none

variable (cm : CaseMap)

def normalizeRole (role : String) : String :=
  let r := toLower cm (trimSpace role)
  let r := (roleAliases r).getD r
  if (roleRank r).isSome then r else "viewer"

/-- The sorted permission set of a role. -/
def permissionsForRole (role : String) : List String :=
  (((rolePermissions (normalizeRole cm role)).getD ((rolePermissions "viewer").getD [])).map
    Permission.text).insertionSort (· ≤ ·)

/-- Whether the caller's context grants the permission; an unauthenticated
context carries no list at all. -/
def hasPermission (granted : Option (List String)) (permission : Permission) : Bool :=
  match granted with
  | none => false
  | some list => list.contains permission.text

variable {cm}

theorem roleRank_isSome {r : String} (h : (roleRank r).isSome) :
    r ∈ ["viewer", "analyst", "operator", "admin"] := by
  revert h
  unfold roleRank
  split <;> simp

/-- Every role is one of the four persisted ones. -/
theorem normalizeRole_cases (cm : CaseMap) (role : String) :
    normalizeRole cm role ∈ ["viewer", "analyst", "operator", "admin"] := by
  rw [normalizeRole]
  split
  · rename_i h
    exact roleRank_isSome h
  · simp

/-- No alias has the length of `viewer`. -/
theorem roleAliases_length {r : String} (h : r.length = 6) : roleAliases r = none := by
  revert h
  unfold roleAliases
  split <;> intro h <;> first | rfl | exact absurd h (by decide)

theorem roleRank_length {r : String} (h : r.length = 6) (hr : (roleRank r).isSome) :
    r = "viewer" := by
  have hmem := roleRank_isSome hr
  simp only [List.mem_cons, List.not_mem_nil, or_false] at hmem
  obtain rfl | rfl | rfl | rfl := hmem
  · rfl
  all_goals exact absurd h (by decide)

theorem normalizeRole_viewer : normalizeRole cm "viewer" = "viewer" := by
  have hlength : (toLower cm (trimSpace "viewer")).length = 6 := by
    rw [toLower, String.length_ofList, List.length_map]
    decide
  rw [normalizeRole]
  generalize toLower cm (trimSpace "viewer") = r at hlength
  rw [roleAliases_length hlength, Option.getD_none]
  split
  · rename_i h
    exact roleRank_length hlength h
  · rfl

theorem text_injective {p q : Permission} (h : p.text = q.text) : p = q := by
  revert h
  cases p <;> cases q <;> first | exact fun _ => rfl | exact fun h => absurd h (by decide)

theorem mem_permissionsForRole {role : String} {p : Permission} :
    p.text ∈ permissionsForRole cm role ↔
      ∃ ps, rolePermissions (normalizeRole cm role) = some ps ∧ p ∈ ps := by
  have hknown : (rolePermissions (normalizeRole cm role)).isSome = true := by
    have h := normalizeRole_cases cm role
    simp only [List.mem_cons, List.not_mem_nil, or_false] at h
    obtain h | h | h | h := h <;> rw [h] <;> rfl
  obtain ⟨ps, hps⟩ := Option.isSome_iff_exists.mp hknown
  rw [permissionsForRole, List.mem_insertionSort, hps, Option.getD_some, List.mem_map]
  constructor
  · rintro ⟨q, hq, he⟩
    exact ⟨ps, rfl, text_injective he ▸ hq⟩
  · rintro ⟨ps', he, hp⟩
    cases he
    exact ⟨p, hp, rfl⟩

/-- Whatever a viewer may do, every role may do. -/
theorem viewer_subset {role : String} {p : Permission}
    (h : p.text ∈ permissionsForRole cm "viewer") : p.text ∈ permissionsForRole cm role := by
  obtain ⟨ps, hps, hp⟩ := mem_permissionsForRole.mp h
  rw [normalizeRole_viewer] at hps
  have hall : ∀ r ∈ ["viewer", "analyst", "operator", "admin"], ∀ ps' ∈ rolePermissions r,
      ∀ q ∈ (rolePermissions "viewer").getD [], q ∈ ps' := by decide
  have hknown := normalizeRole_cases cm role
  have hsome : (rolePermissions (normalizeRole cm role)).isSome = true := by
    simp only [List.mem_cons, List.not_mem_nil, or_false] at hknown
    obtain h | h | h | h := hknown <;> rw [h] <;> rfl
  obtain ⟨ps', hps'⟩ := Option.isSome_iff_exists.mp hsome
  refine mem_permissionsForRole.mpr ⟨ps', hps', hall _ hknown ps' hps' p ?_⟩
  rw [hps, Option.getD_some]
  exact hp

end RivicQ.Auth.Permissions
