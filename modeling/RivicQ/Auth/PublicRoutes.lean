import RivicQ.Lib.GoStrings

namespace RivicQ.Auth.PublicRoutes

open RivicQ.Lib.GoStrings

/-- A route that is reachable without authentication. -/
structure PublicRoute where
  method : String
  path : String

/-- Where the versioned group of routes is mounted. -/
def apiPrefix : String := "/api/v1"

/-- The routes that need no authentication, relative to the mount point. -/
def publicRoutes : List PublicRoute :=
  [⟨"POST", "/auth/login"⟩,
    ⟨"POST", "/auth/register"⟩,
    ⟨"POST", "/auth/refresh"⟩,
    ⟨"POST", "/auth/mfa/verify"⟩,
    ⟨"POST", "/auth/forgot-password"⟩,
    ⟨"POST", "/auth/reset-password"⟩,
    ⟨"GET", "/auth/verify-email"⟩,
    ⟨"POST", "/auth/verify-email"⟩,
    ⟨"GET", "/auth/editions"⟩,
    ⟨"GET", "/auth/providers"⟩,
    ⟨"GET", "/auth/demo"⟩,
    ⟨"GET", "/auth/google/login"⟩,
    ⟨"POST", "/auth/google/exchange"⟩,
    ⟨"GET", "/auth/google/callback"⟩,
    ⟨"POST", "/auth/google/callback"⟩,
    ⟨"GET", "/auth/github/login"⟩,
    ⟨"GET", "/auth/github/callback"⟩,
    ⟨"POST", "/auth/github/callback"⟩,
    ⟨"GET", "/platform/status"⟩,
    ⟨"GET", "/platform/plans"⟩,
    ⟨"GET", "/platform/funnel"⟩,
    ⟨"GET", "/platform/contacts"⟩,
    ⟨"GET", "/ibm"⟩,
    ⟨"GET", "/billing/status"⟩,
    ⟨"POST", "/leads"⟩,
    ⟨"POST", "/billing/webhooks"⟩,
    ⟨"POST", "/github/webhook"⟩]

def cleanPath (p : String) : String :=
  let p := trimSpace p
  if len p > 1 then trimRight p '/' else p

/-- The path below a mount point; a path elsewhere is only cleaned. -/
def relativeToPrefix (path mount : String) : String :=
  let p := cleanPath path
  if p = mount then "/"
  else if hasPrefix p (mount ++ "/") then String.ofList (p.toList.drop mount.length)
  else p

variable (cm : CaseMap)

def normalizeRoute (method path : String) : String :=
  toUpper cm (trimSpace method) ++ " " ++ cleanPath path

def publicRouteSet : List String := publicRoutes.map fun r => normalizeRoute cm r.method r.path

def isPublicRouteUnder (method path mount : String) : Bool :=
  let mount := if mount = "" then apiPrefix else mount
  (publicRouteSet cm).contains (normalizeRoute cm method (relativeToPrefix path mount))

def isPublicRoute (method path : String) : Bool := isPublicRouteUnder cm method path apiPrefix

variable {cm}

theorem toList_normalizeRoute (method path : String) :
    (normalizeRoute cm method path).toList =
      (toUpper cm (trimSpace method)).toList ++ ' ' :: (cleanPath path).toList := by
  rw [normalizeRoute, String.toList_append, String.toList_append, List.append_assoc]
  rfl

theorem isPublicRoute_iff {method path : String} : isPublicRoute cm method path = true ↔
    ∃ r ∈ publicRoutes, normalizeRoute cm r.method r.path =
      normalizeRoute cm method (relativeToPrefix path apiPrefix) := by
  have hne : apiPrefix ≠ "" := by decide
  rw [isPublicRoute, isPublicRouteUnder]
  simp only [if_neg hne, List.contains_iff_mem, publicRouteSet, List.mem_map]

/-- The listed paths are written as cleaning leaves them. -/
theorem cleanPath_public : ∀ r ∈ publicRoutes, cleanPath r.path = r.path := by
  decide

theorem path_public : ∀ r ∈ publicRoutes,
    r.path.toList.head? = some '/' ∧ ' ' ∉ r.path.toList := by
  decide

/-- Text that cleaning a path does not cut, whatever stands behind it. -/
def Stem (s : List Char) : Prop :=
  s.head? = some '/' ∧ s.getLast?.any (fun c => !isSpace c && c != '/') = true

instance (s : List Char) : Decidable (Stem s) :=
  inferInstanceAs (Decidable (_ ∧ _))

variable {p mount path : String} {s b : List Char}

theorem rdropWhile_stem {q : Char → Bool} {c : Char} (hc : s.getLast? = some c)
    (hq : q c = false) (b : List Char) :
    ∃ b', b' <+: b ∧ (s ++ b).rdropWhile q = s ++ b' := by
  obtain ⟨a, rfl⟩ := List.getLast?_eq_some_iff.mp hc
  obtain ⟨b', hb, he⟩ := rdropWhile_append_cons hq a b
  refine ⟨b', hb, ?_⟩
  rw [List.append_assoc, List.append_assoc]
  exact he

theorem cleanPath_stem (hs : Stem s) (h : p.toList = s ++ b) :
    ∃ b', b' <+: b ∧ (cleanPath p).toList = s ++ b' := by
  obtain ⟨hhead, hlast⟩ := hs
  obtain ⟨c, hc, hkept⟩ := (Option.any_eq_true _ _).mp hlast
  have hspace : isSpace c = false := by
    simp only [Bool.and_eq_true, Bool.not_eq_true'] at hkept
    exact hkept.1
  have hslash : (c == '/') = false := by
    simp only [Bool.and_eq_true, bne_iff_ne] at hkept
    exact beq_false_of_ne hkept.2
  have hdrop : (s ++ b).dropWhile isSpace = s ++ b := by
    cases s with
    | nil => cases hhead
    | cons d s =>
      cases hhead
      exact List.dropWhile_cons_of_neg (by decide)
  obtain ⟨b₁, hb₁, he₁⟩ := rdropWhile_stem hc hspace b
  have htrim : (trimSpace p).toList = s ++ b₁ := by
    rw [trimSpace, String.toList_ofList, h, trimRunes, hdrop, he₁]
  unfold cleanPath
  extract_lets p'
  split
  · obtain ⟨b₂, hb₂, he₂⟩ := rdropWhile_stem (q := (· == '/')) hc hslash b₁
    refine ⟨b₂, hb₂.trans hb₁, ?_⟩
    rw [trimRight, String.toList_ofList, htrim, he₂]
  · exact ⟨b₁, hb₁, htrim⟩

/-- Below `/auth` a path is the same with and without the mount point. -/
theorem relativeToPrefix_stem (hm : mount = "" ∨ mount = apiPrefix) (hs : Stem s)
    (hauth : "/auth/".toList <+: s) (h : path.toList = s ++ b) :
    ∃ b', b' <+: b ∧ (relativeToPrefix (mount ++ path) apiPrefix).toList = s ++ b' := by
  obtain ⟨s', rfl⟩ := hauth
  unfold relativeToPrefix
  extract_lets p
  obtain rfl | rfl := hm
  · obtain ⟨b', hb, he⟩ := cleanPath_stem (p := "" ++ path) hs (by rw [String.empty_append, h])
    have hp : p.toList = "/auth/".toList ++ s' ++ b' := he
    clear_value p
    rw [if_neg, if_neg]
    · exact ⟨b', hb, hp⟩
    · simp [hasPrefix, hp, apiPrefix]
    · rintro rfl
      simp [apiPrefix] at hp
  · have hs' : Stem (apiPrefix.toList ++ ("/auth/".toList ++ s')) := by
      obtain ⟨c, hc, hkept⟩ := (Option.any_eq_true _ _).mp hs.2
      refine ⟨rfl, (Option.any_eq_true _ _).mpr ⟨c, ?_, hkept⟩⟩
      rw [List.getLast?_append, hc, Option.some_or]
    obtain ⟨b', hb, he⟩ := cleanPath_stem (p := apiPrefix ++ path) hs' (b := b)
      (by simp only [String.toList_append, h, List.append_assoc])
    have hp : p.toList = apiPrefix.toList ++ ("/auth/".toList ++ s') ++ b' := he
    clear_value p
    rw [if_neg, if_pos]
    · refine ⟨b', hb, ?_⟩
      rw [String.toList_ofList, hp]
      rfl
    · simp [hasPrefix, hp, apiPrefix]
    · rintro rfl
      simp [apiPrefix] at hp

end RivicQ.Auth.PublicRoutes
