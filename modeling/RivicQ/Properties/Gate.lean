import RivicQ.Authn.Gate
import RivicQ.Runs.Calls

namespace RivicQ.Properties.Gate

open RivicQ.Lib.GoStrings RivicQ.Auth.PublicRoutes RivicQ.Authn.Types RivicQ.Authn.Environment
open RivicQ.Authn.Gate
open RivicQ.Auth.Permissions (permissionsForRole)
open RivicQ.Runs.Calls (demoConfig)

variable (cm : CaseMap) (parseWithClaims : Parser) (cfg : Config) (groupPrefix : List String)
  (now : Time) (c : Request)

/-- The request is on the allow-list, relative to the mount point and up to
trailing slashes. -/
def Listed : Prop :=
  ∃ r ∈ publicRoutes, toUpper cm (trimSpace c.method) = r.method ∧
    cleanPath (relativeToPrefix c.path (mountPoint groupPrefix)) = r.path

/-- What verifying the token of the header gives. -/
def presented : Except Err AccessClaims :=
  verify parseWithClaims cfg (bearerToken cm c.authorization) now

/-- The gate lets exactly the listed and the authenticated requests pass, and binds
the claims of a token exactly where it accepts one. -/
structure Exact : Prop where
  passes : (∃ bound, enforceAuth cm parseWithClaims cfg groupPrefix now c = .next bound) ↔
    Listed cm groupPrefix c ∨ ∃ claims, presented cm parseWithClaims cfg now c = .ok claims
  binds : (∃ b, enforceAuth cm parseWithClaims cfg groupPrefix now c = .next (some b)) ↔
    ∃ claims, presented cm parseWithClaims cfg now c = .ok claims
  bound : ∀ b claims, enforceAuth cm parseWithClaims cfg groupPrefix now c = .next (some b) →
    presented cm parseWithClaims cfg now c = .ok claims →
    b.userID = claims.userID ∧ b.tenantID = claims.tenantID ∧ b.role = claims.role ∧
      b.permissions = claims.permissions

theorem method_public : ∀ r ∈ publicRoutes,
    r.method.toList.all Char.isUpper = true ∧ trimSpace r.method = r.method ∧
      ' ' ∉ r.method.toList := by
  decide

variable {cm parseWithClaims cfg groupPrefix now c}

theorem append_blank {a b a' b' : List Char} (ha : ' ' ∉ a') (hb : ' ' ∉ b')
    (h : a ++ ' ' :: b = a' ++ ' ' :: b') : a = a' ∧ b = b' := by
  obtain ⟨x, hx, hrest⟩ | ⟨x, hx, hrest⟩ := List.append_eq_append_iff.mp h
  · cases x with
    | nil => exact ⟨by rw [hx, List.append_nil], (List.cons.inj hrest).2⟩
    | cons d x =>
      obtain rfl := (List.cons.inj hrest).1
      exact absurd (hx ▸ List.mem_append_right a List.mem_cons_self) ha
  · cases x with
    | nil => exact ⟨by rw [hx, List.append_nil], (List.cons.inj hrest).2.symm⟩
    | cons d x =>
      rw [(List.cons.inj hrest).2] at hb
      exact absurd (List.mem_append_right x List.mem_cons_self) hb

/-- Upper case letters are their own upper case. -/
theorem toUpper_upper (hupper : ∀ ch : Char, ch.isUpper = true → cm.upper ch = ch) {s : String}
    (hs : s.toList.all Char.isUpper = true) : toUpper cm s = s := by
  have hmap : s.toList.map cm.upper = s.toList := by
    rw [List.map_eq_map_iff.mpr fun ch hch => hupper ch (List.all_eq_true.mp hs ch hch)]
    exact List.map_id' s.toList
  rw [toUpper, hmap, String.ofList_toList]

theorem toUpper_route (hupper : ∀ ch : Char, ch.isUpper = true → cm.upper ch = ch)
    {r : PublicRoute} (hr : r ∈ publicRoutes) :
    toUpper cm (trimSpace r.method) = r.method := by
  obtain ⟨hup, htrim, _⟩ := method_public r hr
  rw [htrim, toUpper_upper hupper hup]

theorem isPublicRouteUnder_iff (hupper : ∀ ch : Char, ch.isUpper = true → cm.upper ch = ch) :
    isPublicRouteUnder cm c.method c.path (mountPoint groupPrefix) = true ↔
      Listed cm groupPrefix c := by
  rw [isPublicRouteUnder]
  simp only [if_neg (mountPoint_ne groupPrefix), List.contains_iff_mem, publicRouteSet,
    List.mem_map]
  constructor
  · rintro ⟨r, hr, he⟩
    obtain ⟨_, _, hm⟩ := method_public r hr
    obtain ⟨_, hp⟩ := path_public r hr
    have hclean := cleanPath_public r hr
    have he' := congrArg String.toList he.symm
    rw [toList_normalizeRoute, toList_normalizeRoute, toUpper_route hupper hr, hclean] at he'
    obtain ⟨hmethod, hpath⟩ := append_blank hm hp he'
    exact ⟨r, hr, String.toList_inj.mp hmethod, String.toList_inj.mp hpath⟩
  · rintro ⟨r, hr, hmethod, hpath⟩
    refine ⟨r, hr, ?_⟩
    rw [normalizeRoute, normalizeRoute, hmethod, hpath, toUpper_route hupper hr,
      cleanPath_public r hr]

theorem accepted_token {claims : AccessClaims}
    (h : presented cm parseWithClaims cfg now c = .ok claims) :
    bearerToken cm c.authorization ≠ "" := by
  intro hempty
  rw [presented, hempty, verify_empty] at h
  cases h

theorem enforceAuth_accepted {claims : AccessClaims}
    (h : presented cm parseWithClaims cfg now c = .ok claims) :
    enforceAuth cm parseWithClaims cfg groupPrefix now c = .next (some (bindings cm claims)) := by
  have htoken := accepted_token h
  rw [presented] at h
  simp only [enforceAuth, ne_eq, htoken, not_false_eq_true, if_true, h]

/-- Without an accepted token the gate lets a request pass exactly if it is listed
and carries no token, and binds nothing. -/
theorem enforceAuth_refused (hupper : ∀ ch : Char, ch.isUpper = true → cm.upper ch = ch)
    (h : ∀ claims, presented cm parseWithClaims cfg now c ≠ .ok claims) (bound : Option Bindings) :
    enforceAuth cm parseWithClaims cfg groupPrefix now c = .next bound ↔
      bearerToken cm c.authorization = "" ∧ Listed cm groupPrefix c ∧ bound = none := by
  unfold enforceAuth
  by_cases htoken : bearerToken cm c.authorization = ""
  · rw [← isPublicRouteUnder_iff hupper]
    by_cases hpublic : isPublicRouteUnder cm c.method c.path (mountPoint groupPrefix) = true
    · simp [htoken, hpublic, eq_comm]
    · simp [htoken, hpublic]
  · unfold presented at h
    cases hv : verify parseWithClaims cfg (bearerToken cm c.authorization) now with
    | error e => simp [htoken, hv]
    | ok claims => exact absurd hv (h claims)

/-- The gate is exact for a request if and only if it does not meet a listed route
with a token that is refused, and an accepted token names its role as the issuer
writes it. -/
theorem gate_exact (hupper : ∀ ch : Char, ch.isUpper = true → cm.upper ch = ch) :
    Exact cm parseWithClaims cfg groupPrefix now c ↔
      (Listed cm groupPrefix c → bearerToken cm c.authorization = "" ∨
        ∃ claims, presented cm parseWithClaims cfg now c = .ok claims) ∧
      ∀ claims, presented cm parseWithClaims cfg now c = .ok claims →
        (normalizeRole cm claims.role).text = claims.role := by
  by_cases haccepted : ∃ claims, presented cm parseWithClaims cfg now c = .ok claims
  · obtain ⟨claims, h⟩ := haccepted
    have hnext : enforceAuth cm parseWithClaims cfg groupPrefix now c =
        .next (some (bindings cm claims)) := enforceAuth_accepted h
    constructor
    · intro hexact
      refine ⟨fun _ => Or.inr ⟨claims, h⟩, fun claims' h' => ?_⟩
      obtain rfl : claims = claims' := Except.ok.inj (h.symm.trans h')
      have hrole := (hexact.bound (bindings cm claims) claims hnext h).2.2.1
      rwa [bindings_role] at hrole
    · rintro ⟨_, hrole⟩
      constructor
      · exact ⟨fun _ => Or.inr ⟨claims, h⟩, fun _ => ⟨_, hnext⟩⟩
      · exact ⟨fun _ => ⟨claims, h⟩, fun _ => ⟨_, hnext⟩⟩
      · intro b claims' hb h'
        obtain rfl : claims = claims' := Except.ok.inj (h.symm.trans h')
        have hbound : bindings cm claims = b :=
          Option.some.inj (Passage.next.inj (hnext.symm.trans hb))
        rw [← hbound, bindings_role, hrole claims h]
        exact ⟨rfl, rfl, rfl, rfl⟩
  · have hrefused : ∀ claims, presented cm parseWithClaims cfg now c ≠ .ok claims :=
      fun claims h => haccepted ⟨claims, h⟩
    have hnext := @enforceAuth_refused cm parseWithClaims cfg groupPrefix now c hupper hrefused
    constructor
    · intro hexact
      refine ⟨fun hlisted => ?_, fun claims h => absurd h (hrefused claims)⟩
      obtain ⟨bound, hpass⟩ := hexact.passes.mpr (Or.inl hlisted)
      exact Or.inl ((hnext bound).mp hpass).1
    · rintro ⟨hlisted, _⟩
      constructor
      · constructor
        · rintro ⟨bound, hpass⟩
          exact Or.inl ((hnext bound).mp hpass).2.1
        · rintro (h | h)
          · obtain hempty | h' := hlisted h
            · exact ⟨none, (hnext none).mpr ⟨hempty, h, rfl⟩⟩
            · exact absurd h' haccepted
          · exact absurd h haccepted
      · constructor
        · rintro ⟨b, hb⟩
          cases ((hnext (some b)).mp hb).2.2
        · exact fun h => absurd h haccepted
      · exact fun _ claims _ h => absurd h (hrefused claims)

deriving instance DecidableEq for AccessClaims

/-- The access token of a session that began at the first tick. -/
def adaToken : SignedToken where
  raw := "eyJhbGciOiJIUzI1NiJ9.ada"
  method := .hmac "HS256"
  secret := demoConfig.secret
  claims := {
    userID := "00"
    tenantID := "tenant-1"
    email := "ada@example.org"
    role := "viewer"
    edition := "oss"
    permissions := permissionsForRole asciiCase "viewer"
    id := "000"
    subject := "00"
    expiresAt := 1 + demoConfig.accessTTL
    issuedAt := 1
    notBefore := 1
    issuer := demoConfig.issuer
    audience := [demoConfig.audience] }

def ada (method path : String) : Request where
  method := method
  path := path
  authorization := "bearer " ++ adaToken.raw
  requestID := "req-1"

theorem asciiCase_upper (ch : Char) (h : ch.isUpper = true) : asciiCase.upper ch = ch := by
  have hle : ch.val ≤ 'Z'.val := (of_decide_eq_true h).2
  refine dif_neg fun hlower => ?_
  exact absurd (UInt32.le_trans hlower.1 hle) (by decide)

/-- The gate is exact for the token while it lasts. -/
theorem gate_exact_session :
    Exact asciiCase (ledgerParser [adaToken]) demoConfig [] 2 (ada "GET" (apiPrefix ++ "/cbom")) :=
  (gate_exact asciiCase_upper).mpr (by
    have haccepted : presented asciiCase (ledgerParser [adaToken]) demoConfig 2
        (ada "GET" (apiPrefix ++ "/cbom")) = .ok adaToken.claims := by
      decide
    refine ⟨fun _ => Or.inr ⟨_, haccepted⟩, fun claims h => ?_⟩
    obtain rfl := Except.ok.inj (haccepted.symm.trans h)
    decide)

/-- Once the token has expired, a client that still sends it cannot refresh it. -/
theorem expired_token_blocks_refresh :
    ¬ ∀ (cm : CaseMap) (parseWithClaims : Parser) (cfg : Config) (groupPrefix : List String)
      (now : Time) (c : Request), (∀ ch : Char, ch.isUpper = true → cm.upper ch = ch) →
      Exact cm parseWithClaims cfg groupPrefix now c := by
  intro h
  have hexact := h asciiCase (ledgerParser [adaToken]) demoConfig [] (2 + demoConfig.accessTTL)
    (ada "POST" (apiPrefix ++ "/auth/refresh")) asciiCase_upper
  obtain ⟨bound, hpass⟩ := hexact.passes.mpr (Or.inl (by
    refine ⟨⟨"POST", "/auth/refresh"⟩, by simp [publicRoutes], ?_⟩
    decide))
  have habort : (match enforceAuth asciiCase (ledgerParser [adaToken]) demoConfig []
      (2 + demoConfig.accessTTL) (ada "POST" (apiPrefix ++ "/auth/refresh")) with
      | .next _ => 200
      | .abort status _ => status) = 401 := by
    decide
  rw [hpass] at habort
  cases habort

end RivicQ.Properties.Gate
