import RivicQ.Auth.RoutePermissions
import RivicQ.Lib.Paths

namespace RivicQ.Properties.Routes

open RivicQ.Lib.GoStrings RivicQ.Lib.Paths RivicQ.Auth.Permissions RivicQ.Auth.PublicRoutes
open RivicQ.Auth.RoutePermissions

def admits : Verdict → Bool
  | .next => true
  | .abort _ _ => false

/-- The caller's permissions satisfy an entry of the table. -/
def permits (granted : Option (List String)) : Option Permission → Bool
  | none => true
  | some perm => hasPermission granted perm

/-- The patterns with a parameter, by the text on either side of it. -/
def around : List (String × String) :=
  [("/auth/sessions", ""), ("/auth/workspace/users", "/role")]

/-- The path has one segment where the pattern has its parameter. -/
def Between (f : String × String) (path : String) : Prop :=
  ∃ x, x ≠ [] ∧ '/' ∉ x ∧ path.toList = f.1.toList ++ '/' :: (x ++ f.2.toList)

theorem literal_or_around : ∀ e ∈ exactPathPermissions, Literal e.1 ∨ ∃ f ∈ around,
    segments e.1 = segments f.1 ++ ":id".toList :: (segments f.2).tail ∧
      Literal f.1 ∧ Literal f.2 ∧ (segments f.2).head? = some [] := by
  decide

/-- No entry of the table is an instance of another. -/
theorem entry_of_fills : ∀ e ∈ exactPathPermissions, ∀ e' ∈ exactPathPermissions,
    Fills e.1 e'.1 → e'.1 = e.1 := by
  decide

theorem lookup_entry : ∀ e ∈ exactPathPermissions,
    exactPathPermissions.lookup e.1 = some e.2 := by
  decide

theorem around_auth : ∀ f ∈ around, "/auth/".toList <+: f.1.toList := by
  decide

/-- No public path lies below a parametrised pattern, or is the end of one. -/
theorem public_apart : ∀ f ∈ around, ∀ r ∈ publicRoutes,
    ¬ f.1.toList <+: r.path.toList ∧ ¬ r.path.toList <:+: f.2.toList := by
  decide

variable {cm : CaseMap} {mount pattern path method : String} {perm : Option Permission}

theorem between_of_fills (hp : (pattern, perm) ∈ exactPathPermissions) (hl : ¬ Literal pattern)
    (h : Fills pattern path) : ∃ f ∈ around, Between f path := by
  obtain hlit | ⟨f, hf, hs, hhead, htail, hslash⟩ := literal_or_around _ hp
  · exact absurd hlit hl
  · exact ⟨f, hf, fills_one hs rfl hhead htail hslash h⟩

theorem auth_of_between {f : String × String} (hf : f ∈ around) (h : Between f path) :
    ∃ rest, path.toList = "/auth/".toList ++ rest := by
  obtain ⟨x, _, _, he⟩ := h
  obtain ⟨rest, hrest⟩ := around_auth f hf
  exact ⟨rest ++ '/' :: (x ++ f.2.toList), by rw [he, ← hrest, List.append_assoc]⟩

theorem last_of_tail : ∀ f ∈ around, f.2.toList.getLast? ≠ some '/' := by
  decide

theorem last_of_between {f : String × String} (hf : f ∈ around) (h : Between f path) :
    path.toList.getLast? ≠ some '/' := by
  obtain ⟨x, hx, hslash, he⟩ := h
  have hlast := last_of_tail f hf
  obtain htail | ⟨y, c, hy⟩ := List.eq_nil_or_concat f.2.toList
  · obtain ⟨y, c, rfl⟩ := (List.eq_nil_or_concat x).resolve_left hx
    rw [List.concat_eq_append] at he hslash
    rw [he, htail, List.append_nil, ← List.cons_append, ← List.append_assoc, List.getLast?_concat]
    rintro ⟨⟩
    exact hslash (List.mem_append_right y List.mem_cons_self)
  · rw [hy, List.concat_eq_append, List.getLast?_concat] at hlast
    rw [he, hy, List.concat_eq_append, ← List.append_assoc, ← List.cons_append,
      ← List.append_assoc, List.getLast?_concat]
    exact hlast

theorem stem_around : ∀ f ∈ around, Stem f.1.toList ∧ ' ' ∉ f.1.toList ++ ['/'] := by
  decide

/-- No instance of a parametrised pattern is public, whatever the method. -/
theorem not_public {f : String × String} (hf : f ∈ around) (h : Between f path)
    (hm : mount = "" ∨ mount = apiPrefix) : isPublicRoute cm method (mount ++ path) = false := by
  obtain ⟨x, hx, hslash, he⟩ := h
  obtain ⟨hstem, hhead⟩ := stem_around f hf
  obtain ⟨b, hb, hrel⟩ := relativeToPrefix_stem hm hstem (around_auth f hf) he
  obtain ⟨b', hb', hclean⟩ := cleanPath_stem hstem hrel
  rw [Bool.eq_false_iff]
  intro hpub
  obtain ⟨r, hr, hkey⟩ := isPublicRoute_iff.mp hpub
  obtain ⟨hfront, hback⟩ := public_apart f hf r hr
  obtain ⟨hroot, hblank⟩ := path_public r hr
  have hkey' := congrArg String.toList hkey
  rw [toList_normalizeRoute, toList_normalizeRoute, hclean, cleanPath_public r hr] at hkey'
  obtain ⟨a, _, hrest⟩ | ⟨a, _, hrest⟩ := List.append_eq_append_iff.mp hkey'
  · cases a with
    | nil => exact hfront ⟨b', (List.cons.inj hrest).2.symm⟩
    | cons c a =>
      rw [(List.cons.inj hrest).2] at hblank
      exact hblank (List.mem_append_right a List.mem_cons_self)
  · cases a with
    | nil => exact hfront ⟨b', (List.cons.inj hrest).2⟩
    | cons c a =>
      cases hpath : r.path.toList with
      | nil => rw [hpath] at hroot; cases hroot
      | cons d q =>
        rw [hpath] at hroot hrest hback
        cases hroot
        refine hback (infix_tail hhead hslash ?_)
        have hinfix : ' ' :: '/' :: q <:+: f.1.toList ++ b' := ⟨a, [], by
          rw [List.append_nil]
          exact (List.cons.inj hrest).2.symm⟩
        refine hinfix.trans (List.IsPrefix.isInfix ?_)
        rw [List.append_assoc]
        exact (List.prefix_append_right_inj f.1.toList).mpr (hb'.trans hb)

variable {c : Request}

/-- An instance of a parametrised pattern is decided by its entry in the table,
or by the method alone if it has none. -/
theorem admits_between {f : String × String} (hf : f ∈ around) (h : Between f path)
    (hm : mount = "" ∨ mount = apiPrefix) :
    admits (requireRoutePermission cm { c with path := mount ++ path }) =
      match exactPathPermissions.lookup path with
      | some perm => permits c.permissions perm
      | none => !isMutatingMethod c.method := by
  obtain ⟨rest, hrest⟩ := auth_of_between hf h
  have hrequired := requiredPermission_auth hm hrest (last_of_between hf h) c.method
  simp only [requireRoutePermission, not_public hf h hm, Bool.false_eq_true, if_false, hrequired]
  cases exactPathPermissions.lookup path with
  | none => cases hmut : isMutatingMethod c.method <;> simp [admits]
  | some perm =>
    cases perm with
    | none => rfl
    | some perm => cases hp : hasPermission c.permissions perm <;> simp [admits, permits, hp]

theorem lookup_instance (hp : (pattern, perm) ∈ exactPathPermissions) (h : Fills pattern path)
    (hne : path ≠ pattern) : exactPathPermissions.lookup path = none := by
  rw [List.lookup_eq_none_iff]
  intro e he
  rw [bne_iff_ne]
  rintro rfl
  exact hne (entry_of_fills _ hp e he h)

/-- The middleware decides an instance of a pattern as it decides the pattern
exactly if they are the same, or the method is harmless just where the entry of
the pattern is satisfied. -/
theorem decisions_agree (hm : mount = "" ∨ mount = apiPrefix)
    (hp : (pattern, perm) ∈ exactPathPermissions) (h : Fills pattern path) :
    admits (requireRoutePermission cm { c with path := mount ++ path }) =
        admits (requireRoutePermission cm { c with path := mount ++ pattern }) ↔
      path = pattern ∨ (!isMutatingMethod c.method) = permits c.permissions perm := by
  by_cases heq : path = pattern
  · rw [heq]
    exact ⟨fun _ => Or.inl rfl, fun _ => rfl⟩
  have hl : ¬ Literal pattern := fun hl => heq (fills_literal hl h)
  obtain ⟨f, hf, hpath⟩ := between_of_fills hp hl h
  obtain ⟨g, hg, hpattern⟩ := between_of_fills hp hl (fills_self pattern)
  rw [admits_between hf hpath hm, admits_between hg hpattern hm, lookup_instance hp h heq,
    lookup_entry _ hp]
  exact (or_iff_right heq).symm

/-- An administrator. -/
def administrator (method path : String) : Request where
  method := method
  path := path
  permissions := some (permissionsForRole asciiCase "admin")
  role := "admin"
  requestID := ""

/-- Reading the role of a user is decided alike for an administrator. -/
theorem decisions_agree_reading :
    admits (requireRoutePermission asciiCase
        (administrator "GET" (apiPrefix ++ "/auth/workspace/users/42/role"))) =
      admits (requireRoutePermission asciiCase
        (administrator "GET" (apiPrefix ++ "/auth/workspace/users/:id/role"))) :=
  (decisions_agree (c := administrator "GET" "") (Or.inr rfl)
    (by decide : ("/auth/workspace/users/:id/role", some .usersManage) ∈
      exactPathPermissions) (by decide)).mpr (Or.inr (by decide))

/-- Nobody can revoke a session or, with every permission, change a role: the
concrete paths are in neither table. -/
theorem instances_refused :
    (¬ ∀ (c : Request) (mount pattern path : String) (perm : Option Permission),
      mount = "" ∨ mount = apiPrefix → (pattern, perm) ∈ exactPathPermissions →
      Fills pattern path →
      admits (requireRoutePermission asciiCase { c with path := mount ++ path }) =
        admits (requireRoutePermission asciiCase { c with path := mount ++ pattern })) ∧
    admits (requireRoutePermission asciiCase
      (administrator "DELETE" (apiPrefix ++ "/auth/sessions/abc"))) = false := by
  constructor
  · intro h
    have hsame := h (administrator "PATCH" "") apiPrefix "/auth/workspace/users/:id/role"
      "/auth/workspace/users/42/role" (some .usersManage) (Or.inr rfl) (by decide)
      (by decide)
    exact absurd hsame (by decide)
  · decide

end RivicQ.Properties.Routes
