import RivicQ.Authn.LoadConfig
import RivicQ.Authn.Rules

namespace RivicQ.Properties.Configuration

open RivicQ.Lib.GoStrings RivicQ.Lib.Programs RivicQ.Lib.Disciplines RivicQ.Authn.Types
open RivicQ.Authn.Password RivicQ.Authn.Records RivicQ.Authn.Environment RivicQ.Authn.Operations
open RivicQ.Authn.Rules RivicQ.Authn.LoadConfig

structure WellFormed (cfg : Config) : Prop where
  secret : minSecretBytes ≤ len cfg.secret
  accessTTL : 0 < cfg.accessTTL
  refreshTTL : 0 < cfg.refreshTTL
  issuer : cfg.issuer ≠ ""
  audience : cfg.audience ≠ ""
  defaultTenantID : cfg.defaultTenantID ≠ ""
  bootstrapEmail : cfg.bootstrapEmail ≠ ""

/-- An account that is created has a tenant. -/
def NamesTenant : Op → Prop
  | .store (.createUser u) => u.tenantID ≠ ""
  | _ => True

/-- Whatever the replies are, bootstrap and registration only create accounts of a named tenant. -/
structure Tenanted (env : Env) (cfg : Config) : Prop where
  bootstrap : Uses (S := Calls) NamesTenant (seedBootstrap env cfg)
  registration : ∀ name email password organisation,
    Uses (S := Calls) NamesTenant (register env cfg name email password organisation)

variable {α β : Type} {env : Env} {cfg : Config}

section Paths

variable (h : cfg.defaultTenantID ≠ "")
include h

theorem uses_createUser (id email name hash : String) (role : Role) :
    Uses (S := Calls) NamesTenant (store (.createUser (newUser cfg id email name role hash))) :=
  uses_ask h fun _ => uses_pure _

theorem uses_seedDemoUser (name email : String) (role : Role) :
    Uses (S := Calls) NamesTenant (seedDemoUser cfg name email role) := by
  refine uses_ask trivial fun found => ?_
  cases found with
  | ok u => exact uses_pure _
  | error e =>
    refine uses_orReturn (uses_ask trivial fun _ => uses_pure _) fun hash => ?_
    exact uses_ask trivial fun id => uses_createUser h id email name hash role

theorem uses_seedDemoUsersFrom (specs : List (String × String × Role)) :
    Uses (S := Calls) NamesTenant (seedDemoUsersFrom cfg specs) := by
  induction specs with
  | nil => exact uses_pure _
  | cons spec specs ih =>
    obtain ⟨name, email, role⟩ := spec
    exact uses_orReturn (uses_seedDemoUser h name email role) fun _ => ih

theorem uses_seedAdmin : Uses (S := Calls) NamesTenant (seedAdmin env cfg) := by
  unfold seedAdmin
  split
  · exact uses_pure _
  split
  · exact uses_pure _
  refine uses_ask trivial fun found => ?_
  cases found with
  | ok u => exact uses_pure _
  | error e =>
    simp only [Program.pure_bind]
    split
    · refine uses_orReturn (uses_ask trivial fun _ => uses_pure _) fun hash => ?_
      refine uses_ask trivial fun id => ?_
      refine uses_ask h fun created => ?_
      cases created <;> exact uses_pure _
    · exact uses_pure _

theorem uses_seedBootstrap : Uses (S := Calls) NamesTenant (seedBootstrap env cfg) := by
  refine uses_orReturn (uses_seedAdmin h) fun _ => ?_
  split
  · unfold seedDemoUsers
    split
    · exact uses_pure _
    · exact uses_seedDemoUsersFrom h demoUsers
  · exact uses_pure _

theorem uses_issueToken (userID : String) (purpose : TokenPurpose) (ttl : Duration) :
    Uses (S := Calls) NamesTenant (issueToken userID purpose ttl) := by
  refine uses_orReturn (uses_ask trivial fun _ => uses_pure _) fun token => ?_
  refine uses_ask trivial fun issuedAt => ?_
  exact uses_orReturn (uses_ask trivial fun _ => uses_pure _) fun _ => uses_pure _

theorem uses_register (name email password organisation : String) :
    Uses (S := Calls) NamesTenant (register env cfg name email password organisation) := by
  unfold register
  extract_lets email'
  split
  · exact uses_pure _
  split
  · exact uses_pure _
  split
  · exact uses_pure _
  split
  · exact uses_pure _
  refine uses_orReturn (uses_ask trivial fun _ => uses_pure _) fun hash => ?_
  refine uses_ask trivial fun id => ?_
  extract_lets u
  refine uses_orReturn (uses_ask h fun _ => uses_pure _) fun _ => ?_
  split
  · exact uses_pure _
  · exact uses_orReturn (uses_issueToken h u.id .verifyEmail cfg.verifyTTL) fun _ => uses_pure _

end Paths

theorem tenanted (h : cfg.defaultTenantID ≠ "") : Tenanted env cfg :=
  ⟨uses_seedBootstrap h, fun name email password organisation =>
    uses_register h name email password organisation⟩

variable {x : Environ}

theorem wellFormed_settings (hsecret : minSecretBytes ≤ len (settings x).secret) :
    WellFormed (settings x) ↔ (settings x).defaultTenantID ≠ "" := by
  refine ⟨WellFormed.defaultTenantID, fun h => ?_⟩
  exact {
    secret := hsecret
    accessTTL := durationFromEnv_pos (by decide)
    refreshTTL := durationFromEnv_pos (by decide)
    issuer := orDefault_ne (by decide)
    audience := orDefault_ne (by decide)
    defaultTenantID := h
    bootstrapEmail := orDefault_ne (by decide) }

/-- What is loaded is well formed, exactly if the secret is refused or the default tenant is set:
in its own variable, or in one that bears the name of the intended default. -/
theorem config_iff (x : Environ) :
    (∀ cfg, loadConfig x = .ok cfg → WellFormed cfg ∧ ∀ env, Tenanted env cfg) ↔
      len (firstNonEmpty x ["AUTH_JWT_SECRET", "JWT_SECRET"]) < minSecretBytes ∨
      trimSpace (x.getenv "AUTH_DEFAULT_TENANT") ≠ "" ∨ trimSpace (x.getenv "tenant-1") ≠ "" := by
  have htenant : (settings x).defaultTenantID ≠ "" ↔
      trimSpace (x.getenv "AUTH_DEFAULT_TENANT") ≠ "" ∨ trimSpace (x.getenv "tenant-1") ≠ "" := by
    rw [settings, firstNonEmpty_ne, List.exists_mem_cons_iff, List.exists_mem_cons_iff]
    simp only [List.not_mem_nil, false_and, exists_false, or_false,
      RivicQ.Authn.LoadConfig.defaultTenantID]
  rw [← htenant]
  constructor
  · intro h
    by_cases hsecret : len (settings x).secret < minSecretBytes
    · exact .inl hsecret
    · have hok := loadConfig_eq_ok_iff.mpr ⟨rfl, Nat.not_lt.mp hsecret⟩
      exact .inr (h _ hok).1.defaultTenantID
  · intro h cfg hok
    obtain ⟨rfl, hsecret⟩ := loadConfig_eq_ok_iff.mp hok
    have hdefault := h.resolve_left (Nat.not_lt.mpr hsecret)
    exact ⟨(wellFormed_settings hsecret).mpr hdefault, fun _ => tenanted hdefault⟩

/-- Only the signing secret is set. -/
def secretOnly : Environ where
  cases := asciiCase
  getenv k := if k = "AUTH_JWT_SECRET" then "0123456789abcdef0123456789abcdef" else ""
  parseDuration _ := none

/-- By default there is no tenant. -/
theorem tenant_unset : ¬ ∀ (x : Environ) (cfg : Config), loadConfig x = .ok cfg →
    WellFormed cfg ∧ ∀ env, Tenanted env cfg := by
  intro h
  have hsecret : minSecretBytes ≤ len (settings secretOnly).secret := by decide +kernel
  have htenant := (h secretOnly _ (loadConfig_eq_ok_iff.mpr ⟨rfl, hsecret⟩)).1.defaultTenantID
  exact htenant (by decide +kernel)

end RivicQ.Properties.Configuration
