import RivicQ.Authn.Operations

namespace RivicQ.Shared.OAuth

open RivicQ.Lib.GoStrings RivicQ.Lib.Programs
open RivicQ.Authn.Types RivicQ.Authn.Environment RivicQ.Authn.Operations

variable {α β : Type}

/-- The edition value of a frontend edition name. -/
def normalizeAuthEdition (cm : CaseMap) (raw : String) : String :=
  match toLower cm (trimSpace raw) with
  | "community" | "oss" => "oss"
  | "professional" | "pro" => "professional"
  | "enterprise" | "ent" => "enterprise"
  | _ => "oss"

def editionForRole (cm : CaseMap) (role : Role) (requested : String) : String :=
  if trimSpace requested ≠ "" then normalizeAuthEdition cm requested
  else
    match role with
    | .admin => "enterprise"
    | .operator | .analyst => "professional"
    | .viewer => "oss"

/-- Whether the email's domain is on the allow-list; an empty list allows all. -/
def workEmailAllowed (cm : CaseMap) (email : String) (allowedDomains : List String) : Bool :=
  allowedDomains.isEmpty ||
    match cut (toLower cm (trimSpace email)) '@' with
    | none => false
    | some (_, domain) => allowedDomains.any (fun d => equalFold cm (trimSpace d) domain)

def putState (p : Provider) (state edition : String) (k : Unit → Prog β) : Prog β :=
  .request (Op.putState p state edition) k

def lookupState (p : Provider) (state : String) (k : Option String → Prog β) : Prog β :=
  .request (Op.lookupState p state) k

def deleteState (p : Provider) (state : String) (k : Unit → Prog β) : Prog β :=
  .request (Op.deleteState p state) k

def generateState (k : String → Prog β) : Prog β := .request Op.generateOAuthState k

def exchange (p : Provider) (code : String) : Prog String := .request (Op.exchange p code) .pure

def get (url token : String) : Prog String := .request (Op.get url token) .pure

/-- What a completed handshake hands to the browser. -/
structure Completion where
  pair : TokenPair
  edition : String
  user : User
  deriving DecidableEq

variable (env : Env) (cfg : Config)

/-- `GoogleLoginHandler` and `GitHubLoginHandler`: remember the edition under a new
state and return the state. -/
def loginHandler (p : Provider) (notConfigured edition : String) : Prog String :=
  if !env.configured p then fail (.http 502 notConfigured)
  else
    generateState fun state =>
    putState p state (normalizeAuthEdition env.cases edition) fun _ =>
    done state

def googleLogin (edition : Option String) : Prog String :=
  loginHandler env .google "Google OAuth not configured" (edition.getD "oss")

def githubLogin (edition : Option String) : Prog String :=
  loginHandler env .github "GitHub OAuth not configured" (edition.getD "oss")

def completeGoogleOAuth (code state : String) : Prog Completion :=
  lookupState .google state fun found =>
  match found with
  | none => fail (.text "invalid state parameter")
  | some requestedEdition =>
    deleteState .google state fun _ =>
    orFail (exchange .google code) (.text "token exchange failed") fun token =>
    orFail (get "https://www.googleapis.com/oauth2/v3/userinfo" token)
      (.text "failed to get user info") fun body =>
    match env.decodeGoogleUser body with
    | .error _ => fail (.text "failed to parse user info")
    | .ok googleUser =>
      if !googleUser.emailVerified then fail (.text "google email not verified")
      else if !cfg.allowedDomains.isEmpty &&
          !workEmailAllowed env.cases googleUser.email cfg.allowedDomains then
        fail (.text "email domain not allowed")
      else
        orFail (ensureExternalUser env cfg googleUser.email googleUser.name "")
          (.text "failed to create user") fun user =>
        orFail (issueTokens env cfg user (normalizeAuthEdition env.cases requestedEdition) "" "")
          (.text "failed to generate token") fun pair =>
        done ⟨pair, editionForRole env.cases user.role requestedEdition, user⟩

/-- The status a failed Google completion is answered with. -/
def googleFailure (e : Err) : Err :=
  match e with
  | .text "invalid state parameter" => .http 403 "invalid state parameter"
  | .text "Google email not verified" => .http 403 "Google email not verified"
  | .text "Email domain not allowed" => .http 403 "Email domain not allowed"
  | .text msg => .http 500 msg
  | e => e

def answered (p : Prog α) (failure : Err → Err) : Prog α :=
  p.bind fun r =>
    match r with
    | .error e => fail (failure e)
    | .ok a => done a

/-- `GoogleCallbackHandler` and `GoogleExchangeHandler`, which differ in where they
find the code and the state and in the words for a missing one. -/
def googleHandler (missing code state : String) : Prog Completion :=
  if !env.configured .google then fail (.http 502 "Google OAuth not configured")
  else if state = "" ∨ code = "" then fail (.http 400 missing)
  else answered (completeGoogleOAuth env cfg code state) googleFailure

/-- A provider's `error` parameter is passed on to the frontend. -/
def googleCallback (oauthErr code state : String) : Prog Completion :=
  if env.configured .google ∧ oauthErr ≠ "" then fail (.http 307 oauthErr)
  else googleHandler env cfg "Missing state or code" code state

def googleExchange (code state : String) : Prog Completion :=
  googleHandler env cfg "Missing code or state" code state

/-- The first primary verified address, asked for only where the profile shows
none; a failed request leaves it empty. -/
def githubEmail (token : String) (ghUser : GitHubUser) (k : String → Prog β) : Prog β :=
  if ghUser.email ≠ "" then k ghUser.email
  else
    (get "https://api.github.com/user/emails" token).bind fun answer =>
    match answer with
    | .error _ => k ""
    | .ok body =>
      match env.decodeGitHubEmails body with
      | .error _ => k ""
      | .ok emails => k (((emails.find? (fun e => e.primary && e.verified)).map
          GitHubEmail.email).getD "")

def githubCallback (code state userAgent ip : String) : Prog Completion :=
  if !env.configured .github then fail (.http 502 "GitHub OAuth not configured")
  else if state = "" ∨ code = "" then fail (.http 400 "Missing state or code")
  else
    lookupState .github state fun found =>
    match found with
    | none => fail (.http 403 "Invalid state parameter")
    | some requestedEdition =>
      deleteState .github state fun _ =>
      orFail (exchange .github code) (.http 500 "Token exchange failed") fun token =>
      orFail (get "https://api.github.com/user" token) (.http 500 "Failed to get user info")
        fun body =>
      match env.decodeGitHubUser body with
      | .error _ => fail (.http 500 "Failed to parse user info")
      | .ok ghUser =>
        githubEmail env token ghUser fun email =>
        if email = "" then fail (.http 403 "No verified email found on GitHub account")
        else if !cfg.allowedDomains.isEmpty &&
            !workEmailAllowed env.cases email cfg.allowedDomains then
          fail (.http 403 "Email domain not allowed")
        else
          orFail (ensureExternalUser env cfg email
            (if ghUser.name = "" then ghUser.login else ghUser.name) "")
            (.http 500 "Failed to create user") fun user =>
          orFail (issueTokens env cfg user (normalizeAuthEdition env.cases requestedEdition)
            userAgent ip) (.http 500 "Failed to generate token") fun pair =>
          done ⟨pair, editionForRole env.cases user.role requestedEdition, user⟩

end RivicQ.Shared.OAuth
