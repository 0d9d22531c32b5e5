import RivicQ.Auth.Permissions
import RivicQ.Authn.Environment
import RivicQ.Authn.Types

namespace RivicQ.Authn.Password

open RivicQ.Lib.GoStrings RivicQ.Authn.Types

variable (cm : CaseMap)

def minPasswordLength : Nat := 12

def maxPasswordLength : Nat := 72

def commonPasswords : List String :=
  ["password", "password1", "password123", "passw0rd", "12345678", "123456789", "1234567890",
    "qwerty123", "letmein", "welcome1", "administrator", "changeme", "demopass123", "rivicq123"]

def isLower (r : Char) : Bool := 'a' ≤ r && r ≤ 'z'

def isUpper (r : Char) : Bool := 'A' ≤ r && r ≤ 'Z'

def isDigit (r : Char) : Bool := '0' ≤ r && r ≤ '9'

def isSymbol (r : Char) : Bool := !isLower r && !isUpper r && !isDigit r

/-- How many of the four character classes occur in the password. -/
def classes (password : String) : Nat :=
  [isLower, isUpper, isDigit, isSymbol].countP (fun p => password.toList.any p)

def squash (s : String) : String :=
  String.ofList ((toLower cm s).toList.filter (fun r => isLower r || isDigit r))

def containsLocalPart (password email : String) : Bool :=
  email != "" &&
    match cut (normalizeEmail cm email) '@' with
    | none => false
    | some (loc, _) => 4 ≤ len (squash cm loc) && contains (squash cm password) (squash cm loc)

def containsOrganisation (password organisation : String) : Bool :=
  4 ≤ len (squash cm organisation) && contains (squash cm password) (squash cm organisation)

/-- The password policy, with the account's email and organisation at hand. -/
def validatePasswordFor (password email organisation : String) : Except Err Unit :=
  if len password < minPasswordLength then
    .error (.text "password must be at least 12 characters")
  else if maxPasswordLength < len password then
    .error (.text "password must be at most 72 bytes")
  else if trimSpace password ≠ password ∨ password = "" then
    .error (.text "password must not begin or end with whitespace")
  else if toLower cm password ∈ commonPasswords then
    .error (.text "password is too common; choose a unique passphrase")
  else if classes password < 3 then
    .error (.text "password must mix at least three of: lowercase, uppercase, digits, symbols")
  else if containsLocalPart cm password email then
    .error (.text "password must not contain your email address")
  else if containsOrganisation cm password organisation then
    .error (.text "password must not contain your organization name")
  else .ok ()

def validatePassword (password : String) : Except Err Unit :=
  validatePasswordFor cm password "" ""

end RivicQ.Authn.Password

namespace RivicQ.Authn.Operations

open RivicQ.Lib.GoStrings RivicQ.Lib.Programs RivicQ.Auth.Permissions
open RivicQ.Authn.Types RivicQ.Authn.Password RivicQ.Authn.Records RivicQ.Authn.Environment

variable {α β : Type}

/-- A service call: requests, then a value or an error. -/
abbrev Prog (α : Type) := Program Calls (Except Err α)

def done (a : α) : Prog α := .pure (.ok a)

def fail (e : Err) : Prog α := .pure (.error e)

/-- Go on with the value; an error is returned as it is. -/
def orReturn (p : Prog α) (k : α → Prog β) : Prog β :=
  p.bind fun r =>
    match r with
    | .error e => fail e
    | .ok a => k a

/-- Go on with the value; any error is answered with `e`. -/
def orFail (p : Prog α) (e : Err) (k : α → Prog β) : Prog β :=
  p.bind fun r =>
    match r with
    | .error _ => fail e
    | .ok a => k a

def store (o : StoreOp) : Program Calls o.Reply := .request (Op.store o) .pure

def now (k : Time → Prog β) : Prog β := .request Op.now k

def newUUID (k : String → Prog β) : Prog β := .request Op.newUUID k

def newOpaqueToken : Prog (String × String) := .request Op.newOpaqueToken .pure

def hashPassword (password : String) : Prog String :=
  .request (Op.hashPassword password) .pure

def generateTOTP (accountName : String) : Prog (String × String) :=
  .request (Op.generateTOTP accountName) .pure

structure TokenPair where
  accessToken : String
  refreshToken : String
  expiresIn : Nat
  user : User
  deriving DecidableEq

/-- Either a token pair or a challenge for the second factor. -/
inductive LoginResult where
  | tokens (pair : TokenPair)
  | mfaRequired (user : User) (mfaSession : String)
  deriving DecidableEq

/-- The record without its secrets. -/
def publicUser (u : User) : User := { u with passwordHash := "", mfaSecret := "" }

variable (env : Env) (cfg : Config)

def checkPassword (password hash : String) : Bool := env.bcryptCompare hash password

def domainAllowed (email : String) : Bool :=
  match cut email '@' with
  | none => false
  | some (_, domain) => cfg.allowedDomains.any (fun d => equalFold env.cases d domain)

/-- `!strings.Contains(email, "@")` on top of the empty string. -/
def plausibleEmail (email : String) : Bool := email != "" && contains email "@"

def totpValid (u : User) (code : String) (k : Bool → Prog β) : Prog β :=
  if trimSpace u.mfaSecret = "" then k false
  else Program.request (Op.validateTOTP (trimSpace code) u.mfaSecret) k

/-- Sign an access token; `issued` is both issued-at and the base of the expiry. -/
def sign (u : User) (edition : Edition) (issuedAt : Time) : Prog String :=
  newUUID fun id =>
  .pure (env.signedString cfg.secret {
    userID := u.id
    tenantID := u.tenantID
    email := u.email
    role := u.role.text
    edition := edition.text
    permissions := permissionsForRole env.cases u.role.text
    id := id
    subject := u.id
    expiresAt := issuedAt + cfg.accessTTL
    issuedAt := issuedAt
    notBefore := issuedAt
    issuer := cfg.issuer
    audience := [cfg.audience] })

def tokenPair (access refresh : String) (u : User) : TokenPair where
  accessToken := access
  refreshToken := refresh
  expiresIn := cfg.accessTTL / 1000000000
  user := publicUser u

def issueSession (u : User) (edition : Edition) (userAgent ip : String) : Prog TokenPair :=
  now fun issuedAt =>
  orReturn newOpaqueToken fun (raw, hash) =>
  newUUID fun id =>
  orReturn (store (.createSession {
    id := id
    userID := u.id
    refreshHash := hash
    userAgent := userAgent
    ip := ip
    createdAt := issuedAt
    expiresAt := issuedAt + cfg.refreshTTL
    rotatedTo := ""
    revokedAt := none })) fun _ =>
  orReturn (sign env cfg u edition issuedAt) fun access =>
  done (tokenPair cfg access raw u)

def issueToken (userID : String) (purpose : TokenPurpose) (ttl : Duration) : Prog String :=
  orReturn newOpaqueToken fun (raw, hash) =>
  now fun issuedAt =>
  orReturn (store (.createToken {
    hash := hash
    userID := userID
    purpose := purpose
    expiresAt := issuedAt + ttl
    usedAt := none })) fun _ =>
  done raw

/-- Validate a single-use token and find its owner, without consuming it. -/
def loadToken (raw : String) (purpose : TokenPurpose) : Prog (Token × User) :=
  orFail (store (.getToken (hashToken env raw))) .invalidToken fun tok =>
  if tok.purpose ≠ purpose then fail .invalidToken
  else if tok.usedAt ≠ none then fail .tokenUsed
  else
    now fun t =>
    if ¬ t < tok.expiresAt then fail .invalidToken
    else
      orFail (store (.getUserByID tok.userID)) .invalidToken fun u =>
      done (tok, u)

def consumeToken (raw : String) (purpose : TokenPurpose) : Prog User :=
  orReturn (loadToken env raw purpose) fun (tok, u) =>
  orReturn (store (.markTokenUsed tok.hash)) fun _ =>
  done u

/-- The account a caller of `createUser` asks for, before the store stamps it. -/
def newUser (id email name : String) (role : Role) (hash : String) : User where
  id := id
  tenantID := cfg.defaultTenantID
  email := email
  name := name
  role := role
  organisation := ""
  passwordHash := hash
  emailVerified := true
  mfaEnabled := false
  mfaSecret := ""
  disabled := false
  createdAt := 0
  updatedAt := 0

def demoUsers : List (String × String × Role) :=
  [("Admin", "admin@rivicq.com", .admin),
    ("Operator", "operator@rivicq.com", .operator),
    ("Analyst", "analyst@rivicq.com", .analyst),
    ("Sales Team", "sales@rivicq.com", .viewer)]

def seedDemoUser (name email : String) (role : Role) : Prog Unit :=
  (store (.getUserByEmail email)).bind fun found =>
  match found with
  | .ok _ => done ()
  | .error _ =>
    orReturn (hashPassword cfg.bootstrapPassword) fun hash =>
    newUUID fun id =>
    store (.createUser (newUser cfg id email name role hash))

def seedDemoUsersFrom : List (String × String × Role) → Prog Unit
  | [] => done ()
  | (name, email, role) :: specs =>
    orReturn (seedDemoUser cfg name email role) fun _ => seedDemoUsersFrom specs

def seedDemoUsers : Prog Unit :=
  if trimSpace cfg.bootstrapPassword = "" then done () else seedDemoUsersFrom cfg demoUsers

def seedAdmin : Prog Unit :=
  if trimSpace cfg.bootstrapPassword = "" then done ()
  else
    match validatePassword env.cases cfg.bootstrapPassword with
    | .error e => fail (.wrap "bootstrap password rejected" e)
    | .ok _ =>
      (store (.getUserByEmail cfg.bootstrapEmail)).bind fun found =>
      match found with
      | .ok _ => done ()
      | .error e =>
        if e.is .userNotFound then
          orReturn (hashPassword cfg.bootstrapPassword) fun hash =>
          newUUID fun id =>
          (store (.createUser (newUser cfg id (normalizeEmail env.cases cfg.bootstrapEmail)
            cfg.bootstrapName (cfg.bootstrapRole.getD .admin) hash))).bind fun created =>
          match created with
          | .error e => fail (.wrap "seed bootstrap admin" e)
          | .ok _ => done ()
        else done ()

/-- Make sure the bootstrap admin, and in demo mode the demo identities, exist. -/
def seedBootstrap : Prog Unit :=
  orReturn (seedAdmin env cfg) fun _ =>
  if cfg.demoMode then seedDemoUsers cfg else done ()

def register (name email password organisation : String) : Prog (User × String) :=
  let email := normalizeEmail env.cases email
  if !cfg.allowRegistration && !cfg.demoMode then fail (.text "registration is disabled")
  else if !plausibleEmail email then fail (.text "a valid email is required")
  else if !cfg.allowedDomains.isEmpty && !domainAllowed env cfg email then
    fail (.text "email domain is not allowed")
  else
    match validatePasswordFor env.cases password email organisation with
    | .error e => fail e
    | .ok _ =>
      orReturn (hashPassword password) fun hash =>
      newUUID fun id =>
      let u := { newUser cfg id email (trimSpace name) .viewer hash with
        organisation := trimSpace organisation
        emailVerified := !cfg.requireVerification }
      orReturn (store (.createUser u)) fun _ =>
      if !cfg.requireVerification then done (u, "")
      else
        orReturn (issueToken u.id .verifyEmail cfg.verifyTTL) fun raw =>
        done (u, raw)

def verifyEmail (rawToken : String) : Prog Unit :=
  orReturn (consumeToken env rawToken .verifyEmail) fun u =>
  store (.updateUser { u with emailVerified := true })

/-- Check the credentials; the answer is a token pair, or a challenge where the
account has its second factor enabled. -/
def login (email password edition userAgent ip : String) : Prog LoginResult :=
  orFail (store (.getUserByEmail (normalizeEmail env.cases email))) .invalidCredentials fun u =>
  if u.disabled then fail .accountDisabled
  else if !checkPassword env password u.passwordHash then fail .invalidCredentials
  else if !u.emailVerified && cfg.requireVerification then fail .emailNotVerified
  else if u.mfaEnabled then
    orReturn (issueToken u.id .mfaChallenge cfg.mfaSessionTTL) fun raw =>
    done (.mfaRequired (publicUser u) raw)
  else
    orReturn (issueSession env cfg u (editionForRole env.cases edition u.role) userAgent ip)
      fun pair => done (.tokens pair)

/-- Complete a challenge. A wrong code does not consume it. -/
def verifyMFA (mfaSession code userAgent ip : String) : Prog TokenPair :=
  orFail (loadToken env mfaSession .mfaChallenge) .invalidMFASession fun (tok, u) =>
  totpValid u code fun valid =>
  if !valid then fail .invalidMFACode
  else
    orFail (store (.markTokenUsed tok.hash)) .invalidMFASession fun _ =>
    issueSession env cfg u (editionForRole env.cases "" u.role) userAgent ip

/-- Rotate a refresh session. Presenting a rotated token again revokes every
session of the user. -/
def refresh (refreshToken userAgent ip : String) : Prog TokenPair :=
  orFail (store (.getSessionByRefreshHash (hashToken env refreshToken))) .invalidToken fun sess =>
  now fun t =>
  if sess.revokedAt ≠ none then
    if sess.rotatedTo ≠ "" then
      (store (.revokeSessionsForUser sess.userID)).bind fun _ => fail .reuseDetected
    else fail .invalidToken
  else if ¬ t < sess.expiresAt then fail .sessionExpired
  else
    (store (.getUserByID sess.userID)).bind fun found =>
    match found with
    | .error _ => (store (.revokeSessionsForUser sess.userID)).bind fun _ => fail .invalidToken
    | .ok u =>
      if u.disabled then
        (store (.revokeSessionsForUser sess.userID)).bind fun _ => fail .invalidToken
      else
        orReturn newOpaqueToken fun (raw, hash) =>
        newUUID fun id =>
        orReturn (store (.createSession {
          id := id
          userID := u.id
          refreshHash := hash
          userAgent := userAgent
          ip := ip
          createdAt := t
          expiresAt := t + cfg.refreshTTL
          rotatedTo := ""
          revokedAt := none })) fun _ =>
        orReturn (store (.updateSession { sess with revokedAt := some t, rotatedTo := id })) fun _ =>
        orReturn (sign env cfg u (editionForRole env.cases "" u.role) t) fun access =>
        done (tokenPair cfg access raw u)

def logout (refreshToken : String) : Prog Unit :=
  (store (.getSessionByRefreshHash (hashToken env refreshToken))).bind fun found =>
  match found with
  | .error _ => done ()
  | .ok sess =>
    now fun t =>
    store (.updateSession { sess with revokedAt := some t })

/-- Issue a reset token when the account exists. -/
def forgotPassword (email : String) : Prog (Option String) :=
  (store (.getUserByEmail (normalizeEmail env.cases email))).bind fun found =>
  match found with
  | .error _ => done none
  | .ok u =>
    orReturn (issueToken u.id .resetPassword cfg.resetTTL) fun raw =>
    done (some raw)

/-- Consume a reset token, with the checks of `loadToken`, set the password, and
revoke every session of the user. -/
def resetPassword (rawToken newPassword : String) : Prog Unit :=
  orReturn (loadToken env rawToken .resetPassword) fun (tok, u) =>
  match validatePasswordFor env.cases newPassword u.email u.organisation with
  | .error e => fail e
  | .ok _ =>
    orReturn (hashPassword newPassword) fun hash =>
    orReturn (store (.markTokenUsed tok.hash)) fun _ =>
    orReturn (store (.updateUser { u with passwordHash := hash })) fun _ =>
    store (.revokeSessionsForUser u.id)

def changePassword (userID current next : String) : Prog Unit :=
  orFail (store (.getUserByID userID)) .userNotFound fun u =>
  if !checkPassword env current u.passwordHash then fail (.text "current password is incorrect")
  else
    match validatePasswordFor env.cases next u.email u.organisation with
    | .error e => fail e
    | .ok _ =>
      orReturn (hashPassword next) fun hash =>
      store (.updateUser { u with passwordHash := hash })

/-- Generate and store a secret and return it with its provisioning URI. -/
def setupMFA (userID : String) : Prog (String × String) :=
  orFail (store (.getUserByID userID)) .userNotFound fun u =>
  orReturn (generateTOTP u.email) fun (secret, uri) =>
  orReturn (store (.updateUser { u with mfaSecret := secret })) fun _ =>
  done (secret, uri)

def confirmMFA (userID code : String) : Prog Unit :=
  orFail (store (.getUserByID userID)) .userNotFound fun u =>
  totpValid u code fun valid =>
  if !valid then fail .invalidMFACode
  else store (.updateUser { u with mfaEnabled := true })

def disableMFA (userID password : String) : Prog Unit :=
  orFail (store (.getUserByID userID)) .userNotFound fun u =>
  if !checkPassword env password u.passwordHash then fail .invalidCredentials
  else store (.updateUser { u with mfaEnabled := false, mfaSecret := "" })

def demoLogin (userAgent ip : String) : Prog TokenPair :=
  if !cfg.demoMode then fail .demoDisabled
  else
    orFail (store (.getUserByEmail "operator@rivicq.com")) .demoDisabled fun u =>
    issueSession env cfg u .oss userAgent ip

def listSessions (userID : String) : Prog (List Session) := store (.listSessionsByUser userID)

def revokeSession (userID sessionID : String) : Prog Unit :=
  orFail (store (.getSessionByID sessionID)) .invalidToken fun sess =>
  if sess.userID ≠ userID then fail .invalidToken
  else
    now fun t =>
    store (.updateSession { sess with revokedAt := some t })

/-- The account of an external identity, created on first sight with a password
nobody knows. -/
def ensureExternalUser (email name organisation : String) : Prog User :=
  let email := normalizeEmail env.cases email
  if !plausibleEmail email then fail (.text "a valid email is required")
  else if !cfg.allowedDomains.isEmpty && !domainAllowed env cfg email then
    fail (.text "email domain is not allowed")
  else
    (store (.getUserByEmail email)).bind fun found =>
    match found with
    | .ok existing => if existing.disabled then fail .accountDisabled else done existing
    | .error _ =>
      orReturn newOpaqueToken fun (raw, _) =>
      orReturn (hashPassword raw) fun hash =>
      newUUID fun id =>
      let u := { newUser cfg id email (trimSpace name) .viewer hash with
        organisation := trimSpace organisation }
      (store (.createUser u)).bind fun created =>
      match created with
      | .ok _ => done u
      | .error e => if e.is .emailTaken then store (.getUserByEmail email) else fail e

def issueTokens (u : User) (edition userAgent ip : String) : Prog TokenPair :=
  issueSession env cfg u (editionForRole env.cases edition u.role) userAgent ip

def lookupByID (id : String) : Prog User :=
  orReturn (store (.getUserByID id)) fun u => done (publicUser u)

def lookupByEmail (email : String) : Prog User :=
  orReturn (store (.getUserByEmail email)) fun u => done (publicUser u)

def updateUser (u : User) : Prog Unit := store (.updateUser u)

def listUsersByTenant (tenantID : String) : Prog (List User) :=
  orReturn (store (.listUsersByTenant tenantID)) fun users => done (users.map publicUser)

end RivicQ.Authn.Operations
