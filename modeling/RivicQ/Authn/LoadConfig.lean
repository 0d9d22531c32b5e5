import RivicQ.Authn.Types

namespace RivicQ.Authn.LoadConfig

open RivicQ.Lib.GoStrings RivicQ.Authn.Types

/-- The process environment, in which an unset variable reads as empty, with the case tables and
`time.ParseDuration`. -/
structure Environ where
  cases : CaseMap
  getenv : String → String
  parseDuration : String → Option Int

def defaultIssuer : String := "rivicq"

def defaultAudience : String := "rivicq-api"

def minSecretBytes : Nat := 32

def defaultTenantID : String := "tenant-1"

variable (x : Environ)

def firstNonEmpty : List String → String
  | [] => ""
  | k :: keys =>
    let v := trimSpace (x.getenv k)
    if v ≠ "" then v else firstNonEmpty keys

/-- An empty result stays empty. -/
def bootstrapRoleFromEnv : Option Role :=
  let raw := trimSpace (x.getenv "AUTH_BOOTSTRAP_ROLE")
  if raw = "" then none else some (normalizeRole x.cases raw)

def durationFromEnv (key : String) (fallback : Duration) : Duration :=
  let raw := trimSpace (x.getenv key)
  if raw ≠ "" then
    match x.parseDuration raw with
    | some d => if d > 0 then d.toNat else fallback
    | none => fallback
  else fallback

def boolFromEnv (key : String) : Bool :=
  decide (toLower x.cases (trimSpace (x.getenv key)) ∈ ["1", "true", "yes", "on"])

def boolFromEnvDefault (key : String) (fallback : Bool) : Bool :=
  let raw := toLower x.cases (trimSpace (x.getenv key))
  if raw ∈ ["1", "true", "yes", "on"] then true
  else if raw ∈ ["0", "false", "no", "off"] then false
  else fallback

def allowedDomains : List String :=
  let domains := trimSpace (x.getenv "AUTH_ALLOWED_DOMAINS")
  if domains ≠ "" then
    ((domains.toList.splitOn ',').map fun d => trimSpace (toLower x.cases (String.ofList d))).filter
      (· ≠ "")
  else []

/-- A literal default for a setting that is empty. -/
def orDefault (v fallback : String) : String := if v = "" then fallback else v

/-- The settings before the secret is checked. -/
def settings : Config where
  secret := firstNonEmpty x ["AUTH_JWT_SECRET", "JWT_SECRET"]
  issuer := orDefault (firstNonEmpty x ["AUTH_JWT_ISSUER"]) defaultIssuer
  audience := orDefault (firstNonEmpty x ["AUTH_JWT_AUDIENCE"]) defaultAudience
  accessTTL := durationFromEnv x "AUTH_ACCESS_TTL" 900000000000
  refreshTTL := durationFromEnv x "AUTH_REFRESH_TTL" 604800000000000
  resetTTL := durationFromEnv x "AUTH_RESET_TTL" 1800000000000
  verifyTTL := durationFromEnv x "AUTH_VERIFY_TTL" 86400000000000
  mfaSessionTTL := durationFromEnv x "AUTH_MFA_SESSION_TTL" 600000000000
  demoMode := boolFromEnv x "DEMO_MODE" || boolFromEnv x "RIVICQ_ALLOW_DEMO_MODE"
  allowRegistration := boolFromEnvDefault x "AUTH_ALLOW_REGISTRATION" true
  requireVerification := boolFromEnv x "AUTH_REQUIRE_VERIFICATION"
  allowedDomains := allowedDomains x
  bootstrapEmail :=
    orDefault (firstNonEmpty x ["AUTH_BOOTSTRAP_EMAIL", "CRYPTOBOM_BOOTSTRAP_EMAIL"])
      "admin@rivicq.local"
  bootstrapPassword := firstNonEmpty x ["AUTH_BOOTSTRAP_PASSWORD", "CRYPTOBOM_BOOTSTRAP_PASSWORD"]
  bootstrapName := orDefault (firstNonEmpty x ["AUTH_BOOTSTRAP_NAME"]) "Administrator"
  bootstrapRole := bootstrapRoleFromEnv x
  -- both arguments are names of variables
  defaultTenantID := firstNonEmpty x ["AUTH_DEFAULT_TENANT", defaultTenantID]

def loadConfig : Except Err Config :=
  let cfg := settings x
  if len cfg.secret < minSecretBytes then
    .error (.text ("auth: signing secret must be set and at least " ++ toString minSecretBytes ++
      " bytes (set AUTH_JWT_SECRET or JWT_SECRET)"))
  else .ok cfg

variable {x}

theorem orDefault_ne {v fallback : String} (h : fallback ≠ "") : orDefault v fallback ≠ "" := by
  unfold orDefault
  split_ifs with hv
  · exact h
  · exact hv

theorem durationFromEnv_pos {key : String} {fallback : Duration} (h : 0 < fallback) :
    0 < durationFromEnv x key fallback := by
  simp only [durationFromEnv]
  split_ifs
  · cases x.parseDuration (trimSpace (x.getenv key)) with
    | none => exact h
    | some d =>
      dsimp only
      split_ifs with hd
      · exact Int.pos_iff_toNat_pos.mp hd
      · exact h
  · exact h

/-- A setting is there exactly if one of its variables is not blank. -/
theorem firstNonEmpty_ne {keys : List String} :
    firstNonEmpty x keys ≠ "" ↔ ∃ k ∈ keys, trimSpace (x.getenv k) ≠ "" := by
  induction keys with
  | nil => simp [firstNonEmpty]
  | cons k keys ih =>
    simp only [firstNonEmpty]
    split_ifs with h
    · exact ⟨fun _ => ⟨k, List.mem_cons_self, h⟩, fun _ => h⟩
    · rw [ih, List.exists_mem_cons_iff]
      exact ⟨.inr, fun hk => hk.resolve_left fun hk => h hk⟩

theorem loadConfig_eq_ok_iff {cfg : Config} :
    loadConfig x = .ok cfg ↔ cfg = settings x ∧ minSecretBytes ≤ len (settings x).secret := by
  by_cases h : len (settings x).secret < minSecretBytes
  · have herror : ∀ cfg, loadConfig x ≠ .ok cfg := fun cfg hok => by
      rw [loadConfig, if_pos h] at hok
      exact nomatch hok
    exact ⟨fun hok => absurd hok (herror cfg), fun hok => absurd hok.2 (Nat.not_le.mpr h)⟩
  · have hok : loadConfig x = .ok (settings x) := if_neg h
    rw [hok]
    exact ⟨fun heq => ⟨(Except.ok.inj heq).symm, Nat.not_lt.mp h⟩, fun heq => heq.1 ▸ rfl⟩

attribute [irreducible] firstNonEmpty durationFromEnv orDefault

end RivicQ.Authn.LoadConfig
