import RivicQ.Auth.RoutePermissions
import RivicQ.Lib.Tables

namespace RivicQ.Properties.Viewers

open RivicQ.Lib.GoStrings RivicQ.Lib.Tables RivicQ.Auth.Permissions RivicQ.Auth.PublicRoutes
open RivicQ.Auth.RoutePermissions

/-- The path is, up to the mount point and a trailing slash, an exact entry of the
table that asks for no permission. -/
def SelfService (path : String) : Prop :=
  ∃ entry, (entry, none) ∈ exactPathPermissions ∧
    ∃ mount ∈ ["", apiPrefix], ∃ slash ∈ ["", "/"], path = mount ++ entry ++ slash

/-- What a viewer may do. -/
def viewing : List Permission := (rolePermissions "viewer").getD []

theorem exact_apart : ∀ e ∈ exactPathPermissions, ∀ p ∈ e.2, p ∉ viewing := by
  decide

theorem exact_below : ∀ e ∈ exactPathPermissions, e.1 ≠ "/" ∧ e.1 ≠ "" := by
  decide

/-- No resource lets a viewer write. -/
theorem resource_apart : ∀ e ∈ resourcePermissionTable,
    (∀ p ∈ e.2.write, p ∉ viewing) ∧ ∀ p ∈ e.2.del.or e.2.write, p ∉ viewing := by
  decide

variable {cm : CaseMap} {method path entry : String} {p : Permission} {c : Request}

theorem mem_viewing : p.text ∈ permissionsForRole cm "viewer" ↔ p ∈ viewing := by
  rw [mem_permissionsForRole, normalizeRole_viewer]
  constructor
  · rintro ⟨ps, hps, hp⟩
    rwa [viewing, hps]
  · exact fun hp => ⟨viewing, rfl, hp⟩

theorem selfService_of_normalized (h : trimSuffix (routePath path) "/" = entry)
    (he : (entry, none) ∈ exactPathPermissions) : SelfService path := by
  obtain ⟨hroot, hempty⟩ := exact_below _ he
  obtain hroute | hroute := trimSuffix_eq h
  · obtain rfl | rfl := routePath_eq hroute hroot
    · exact ⟨path, he, "", by simp, "", by simp, by simp⟩
    · exact ⟨entry, he, apiPrefix, by simp, "", by simp, by simp⟩
  · have hslash : entry ++ "/" ≠ "/" := by
      intro h'
      have hlist := congrArg String.toList h'
      rw [String.toList_append] at hlist
      exact hempty (String.toList_inj.mp (List.append_left_eq_self.mp hlist))
    obtain rfl | rfl := routePath_eq hroute hslash
    · exact ⟨entry, he, "", by simp, "/", by simp, by simp⟩
    · exact ⟨entry, he, apiPrefix, by simp, "/", by simp, by rw [String.append_assoc]⟩

/-- A mutating request is to a self-service path, needs a permission a viewer does
not have, or is not governed at all. -/
theorem requiredPermission_mutating (hm : isMutatingMethod method = true) :
    match requiredPermission method path with
    | some none => SelfService path
    | some (some p) => p ∉ viewing
    | none => True := by
  have hread : ¬ (method = "GET" ∨ method = "HEAD") := by
    rintro (rfl | rfl) <;> exact absurd hm (by decide)
  unfold requiredPermission
  extract_lets normalized normalized'
  cases hexact : exactPathPermissions.lookup normalized' with
  | some perm =>
    have hmem := mem_of_lookup hexact
    cases perm with
    | none =>
      have hn : normalized' = normalized := if_neg fun h => by
        have hslash : normalized' = "/" := if_pos h
        exact (exact_below _ hmem).1 hslash
      exact selfService_of_normalized hn.symm hmem
    | some p => exact exact_apart _ hmem p rfl
  | none =>
    simp only [if_neg hread]
    cases hres : resourcePermissionTable.lookup (resourceSegment normalized') with
    | none => trivial
    | some perms =>
      obtain ⟨hwrite, hdelete⟩ := resource_apart _ (mem_of_lookup hres)
      by_cases hd : method = "DELETE"
      · simp only [if_pos hd]
        cases hp : perms.del.or perms.write with
        | none => trivial
        | some p => exact hdelete p hp
      · simp only [if_neg hd]
        cases hp : perms.write with
        | none => trivial
        | some p => exact hwrite p hp

/-- A viewer asking for something. -/
def viewer (method path : String) : Request where
  method := method
  path := path
  permissions := some (permissionsForRole asciiCase "viewer")
  role := "viewer"
  requestID := ""

end RivicQ.Properties.Viewers
