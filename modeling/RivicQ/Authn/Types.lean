import RivicQ.Lib.GoStrings

namespace RivicQ.Authn.Types

open RivicQ.Lib.GoStrings

/-- Nanoseconds; `0` is Go's zero time, the one `IsZero` recognises. -/
abbrev Time := Nat

abbrev Duration := Nat

/-- The roles `normalizeRole` clamps every stored role to. -/
inductive Role where
  | admin
  | operator
  | analyst
  | viewer
  deriving DecidableEq

inductive Edition where
  | oss
  | professional
  | enterprise
  deriving DecidableEq

inductive TokenPurpose where
  | verifyEmail
  | resetPassword
  | mfaChallenge
  deriving DecidableEq

/-- The sentinel errors, one-off `errors.New` texts, `%w` wrappers, and the
status and message a handler answers with. -/
inductive Err where
  | invalidCredentials
  | userNotFound
  | emailTaken
  | emailNotVerified
  | accountDisabled
  | invalidMFACode
  | invalidMFASession
  | invalidToken
  | tokenUsed
  | sessionExpired
  | reuseDetected
  | demoDisabled
  | text (msg : String)
  | wrap (context : String) (e : Err)
  | http (status : Nat) (msg : String)
  deriving DecidableEq

/-- `errors.Is`, which looks through wrappers. -/
def Err.is : Err → Err → Bool
  | .wrap context e, target => .wrap context e = target || e.is target
  | e, target => e = target

@[ext] structure User where
  id : String
  tenantID : String
  email : String
  name : String
  role : Role
  organisation : String
  passwordHash : String
  emailVerified : Bool
  mfaEnabled : Bool
  mfaSecret : String
  disabled : Bool
  createdAt : Time
  updatedAt : Time
  deriving DecidableEq

/-- A refresh session. Rotation sets `rotatedTo` and `revokedAt`; an empty
`rotatedTo` means it was never rotated. -/
structure Session where
  id : String
  userID : String
  refreshHash : String
  userAgent : String
  ip : String
  createdAt : Time
  expiresAt : Time
  rotatedTo : String
  revokedAt : Option Time
  deriving DecidableEq

def Session.active (s : Session) (now : Time) : Bool :=
  s.revokedAt.isNone && decide (now < s.expiresAt)

theorem inactive_of_revoked {s : Session} (h : s.revokedAt ≠ none) (now : Time) :
    s.active now = false := by
  unfold Session.active
  cases hr : s.revokedAt with
  | none => exact absurd hr h
  | some t => rfl

/-- An out-of-band single-use token. -/
structure Token where
  hash : String
  userID : String
  purpose : TokenPurpose
  expiresAt : Time
  usedAt : Option Time
  deriving DecidableEq

/-- The resolved configuration. An unset bootstrap role is `none`. -/
structure Config where
  secret : String
  issuer : String
  audience : String
  accessTTL : Duration
  refreshTTL : Duration
  resetTTL : Duration
  verifyTTL : Duration
  mfaSessionTTL : Duration
  demoMode : Bool
  allowRegistration : Bool
  requireVerification : Bool
  allowedDomains : List String
  bootstrapEmail : String
  bootstrapPassword : String
  bootstrapName : String
  bootstrapRole : Option Role
  defaultTenantID : String

def Role.text : Role → String
  | .admin => "admin"
  | .operator => "operator"
  | .analyst => "analyst"
  | .viewer => "viewer"

def Edition.text : Edition → String
  | .oss => "oss"
  | .professional => "professional"
  | .enterprise => "enterprise"

variable (cm : CaseMap)

@[irreducible] def normalizeEmail (email : String) : String := toLower cm (trimSpace email)

@[simp] theorem normalizeEmail_normalizeEmail (email : String) :
    normalizeEmail cm (normalizeEmail cm email) = normalizeEmail cm email := by
  simp only [normalizeEmail, toLower_trimSpace, toLower_toLower, trimSpace_trimSpace]

def normalizeRole (role : String) : Role :=
  match toLower cm (trimSpace role) with
  | "admin" => .admin
  | "operator" => .operator
  | "analyst" => .analyst
  | _ => .viewer

/-- A recognised request decides the edition; otherwise the role does. -/
def editionForRole (requested : String) (role : Role) : Edition :=
  match toLower cm (trimSpace requested) with
  | "enterprise" | "ent" => .enterprise
  | "professional" | "pro" => .professional
  | "oss" | "community" => .oss
  | _ =>
    match role with
    | .admin => .enterprise
    | .operator | .analyst => .professional
    | .viewer => .oss

end RivicQ.Authn.Types
