import RivicQ.Authn.Environment
import RivicQ.Auth.PublicRoutes

namespace RivicQ.Authn.Gate

open RivicQ.Lib.GoStrings RivicQ.Auth.PublicRoutes RivicQ.Authn.Types RivicQ.Authn.Environment

/-- The signing method a token names, by the family it belongs to. -/
inductive SigningMethod where
  | hmac (alg : String)
  | other (alg : String)

def SigningMethod.alg : SigningMethod → String
  | .hmac alg => alg
  | .other alg => alg

/-- What a parse of a token is told beside the token itself. -/
structure ParseOptions where
  key : SigningMethod → Option String
  validMethods : List String
  issuer : String
  audience : String
  expirationRequired : Bool
  now : Time

/-- The JWT library: the claims of a token and whether it is valid. -/
abbrev Parser := ParseOptions → String → Option (AccessClaims × Bool)

/-- What the gate reads of a request. -/
structure Request where
  method : String
  path : String
  authorization : String
  requestID : String

/-- What the gate puts into the context. -/
structure Bindings where
  userID : String
  tenantID : String
  email : String
  role : String
  edition : String
  permissions : List String

inductive Passage where
  | next (bound : Option Bindings)
  | abort (status : Nat) (body : List (String × String))

variable (cm : CaseMap) (parseWithClaims : Parser) (cfg : Config)

def parseOptions (now : Time) : ParseOptions where
  key
    | .hmac _ => some cfg.secret
    | .other _ => none
  validMethods := ["HS256"]
  issuer := cfg.issuer
  audience := cfg.audience
  expirationRequired := true
  now := now

def verify (raw : String) (now : Time) : Except Err AccessClaims :=
  let raw := trimSpace raw
  if raw = "" then .error .invalidToken
  else
    match parseWithClaims (parseOptions cfg now) raw with
    | some (claims, true) => .ok claims
    | _ => .error .invalidToken

/-- The token of a header. What folds to `Bearer ` has a byte for each rune. -/
def bearerToken (header : String) : String :=
  let h := trimSpace header
  if len h > 7 ∧ equalFold cm (String.ofList (h.toList.take 7)) "Bearer " then
    trimSpace (String.ofList (h.toList.drop 7))
  else h

def bindings (claims : AccessClaims) : Bindings where
  userID := claims.userID
  tenantID := claims.tenantID
  email := normalizeEmail cm claims.email
  role := (normalizeRole cm claims.role).text
  edition := claims.edition
  permissions := claims.permissions

def mountPoint : List String → String
  | [] => apiPrefix
  | p :: _ => if p ≠ "" then p else apiPrefix

def enforceAuth (groupPrefix : List String) (now : Time) (c : Request) : Passage :=
  let token := bearerToken cm c.authorization
  if token ≠ "" then
    match verify parseWithClaims cfg token now with
    | .error _ =>
      .abort 401
        [("error", "invalid_token"),
          ("message", "The access token is invalid or expired."),
          ("request_id", c.requestID)]
    | .ok claims => .next (some (bindings cm claims))
  else if isPublicRouteUnder cm c.method c.path (mountPoint groupPrefix) then .next none
  else
    .abort 401
      [("error", "authentication_required"),
        ("message", "This endpoint requires a valid access token."),
        ("request_id", c.requestID)]

@[simp] theorem bindings_role (claims : AccessClaims) :
    (bindings cm claims).role = (normalizeRole cm claims.role).text := by
  simp only [bindings]

theorem verify_empty (now : Time) : verify parseWithClaims cfg "" now = .error .invalidToken := by
  rw [verify]
  exact if_pos (by decide)

theorem mountPoint_ne (groupPrefix : List String) : mountPoint groupPrefix ≠ "" := by
  have hapi : apiPrefix ≠ "" := by decide
  cases groupPrefix with
  | nil => exact hapi
  | cons p _ =>
    rw [mountPoint]
    split
    · assumption
    · exact hapi

/-- A signed token: what it decodes to, and the method and key it was signed with. -/
structure SignedToken where
  raw : String
  method : SigningMethod
  secret : String
  claims : AccessClaims

/-- A parser that knows the tokens signed so far and checks each as it is told. -/
def ledgerParser (signed : List SignedToken) : Parser := fun opts raw =>
  match signed.find? (·.raw = raw) with
  | none => none
  | some t =>
    if t.method.alg ∈ opts.validMethods ∧ opts.key t.method = some t.secret ∧
        t.claims.issuer = opts.issuer ∧ opts.audience ∈ t.claims.audience ∧
        opts.now < t.claims.expiresAt ∧ t.claims.notBefore ≤ opts.now then
      some (t.claims, true)
    else none

end RivicQ.Authn.Gate
