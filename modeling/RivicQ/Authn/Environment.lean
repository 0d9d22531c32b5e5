import RivicQ.Authn.PostgresRefines
import RivicQ.Lib.Disciplines

namespace RivicQ.Authn.Environment

open RivicQ.Lib.GoStrings RivicQ.Lib.Tables RivicQ.Lib.Programs
open RivicQ.Authn.Types RivicQ.Authn.Records RivicQ.Authn.Stores

inductive Provider where
  | google
  | github
  deriving DecidableEq

structure GoogleUser where
  name : String
  email : String
  emailVerified : Bool

structure GitHubUser where
  login : String
  name : String
  email : String

structure GitHubEmail where
  email : String
  primary : Bool
  verified : Bool

/-- The signed payload of an access token. -/
structure AccessClaims where
  userID : String
  tenantID : String
  email : String
  role : String
  edition : String
  permissions : List String
  id : String
  subject : String
  expiresAt : Time
  issuedAt : Time
  notBefore : Time
  issuer : String
  audience : List String

/-- Everything the service relies on and does not define. What may answer
differently from one call to the next (clocks, generators, the database server,
the identity providers) is indexed by the tick at which it is asked. -/
structure Env where
  cases : CaseMap
  clock : Nat → Time
  randomHex : Nat → Except Err String
  uuid : Nat → String
  sha256Hex : String → String
  bcryptGenerate : Nat → String → Except Err String
  bcryptCompare : String → String → Bool
  totpGenerate : Nat → String → Except Err (String × String)
  totpValidate : Time → String → String → Bool
  signedString : String → AccessClaims → Except Err String
  statementFault : Nat → Option Err
  configured : Provider → Bool
  exchange : Nat → Provider → String → Except Err String
  get : Nat → String → String → Except Err String
  decodeGoogleUser : String → Except Err GoogleUser
  decodeGitHubUser : String → Except Err GitHubUser
  decodeGitHubEmails : String → Except Err (List GitHubEmail)

structure World where
  store : Store
  googleStates : Table String
  githubStates : Table String
  ticks : Nat

def World.ledger (w : World) : Ledger := w.store.ledger

/-- The requests the service makes while it runs. -/
inductive Op where
  | store (o : StoreOp)
  | now
  | newOpaqueToken
  | newUUID
  | hashPassword (password : String)
  | generateTOTP (accountName : String)
  | validateTOTP (code secret : String)
  | generateOAuthState
  | putState (p : Provider) (state edition : String)
  | lookupState (p : Provider) (state : String)
  | deleteState (p : Provider) (state : String)
  | exchange (p : Provider) (code : String)
  | get (url token : String)

abbrev Op.Reply : Op → Type
  | .store o => o.Reply
  | .now => Time
  | .newOpaqueToken => Except Err (String × String)
  | .newUUID => String
  | .hashPassword _ => Except Err String
  | .generateTOTP _ => Except Err (String × String)
  | .validateTOTP _ _ => Bool
  | .generateOAuthState => String
  | .putState _ _ _ => Unit
  | .lookupState _ _ => Option String
  | .deleteState _ _ => Unit
  | .exchange _ _ => Except Err String
  | .get _ _ => Except Err String

/-- Another call can be scheduled wherever shared state is touched or the
network is waited for. -/
def Op.yields : Op → Bool
  | .store _ | .putState _ _ _ | .lookupState _ _ | .deleteState _ _ | .exchange _ _
  | .get _ _ => true
  | .now | .newOpaqueToken | .newUUID | .hashPassword _ | .generateTOTP _ | .validateTOTP _ _
  | .generateOAuthState => false

abbrev Calls : Signature := ⟨Op, Op.Reply, Op.yields⟩

namespace World

def tick (w : World) : World := { w with ticks := w.ticks + 1 }

def states (w : World) : Provider → Table String
  | .google => w.googleStates
  | .github => w.githubStates

def setStates (w : World) (t : Table String) : Provider → World
  | .google => { w with googleStates := t }
  | .github => { w with githubStates := t }

end World

variable (env : Env)

def hashToken (raw : String) : String := env.sha256Hex (trimSpace raw)

def newOpaqueToken (n : Nat) : Except Err (String × String) :=
  match env.randomHex n with
  | .error e => .error e
  | .ok raw => .ok (raw, hashToken env raw)

def generateOAuthState (n : Nat) : String :=
  match env.randomHex n with
  | .error _ => "oauth-state-fallback"
  | .ok raw => raw

/-- Serve one request. -/
def handle : Handler Calls World
  | .store o, w =>
    let served := w.store.exec env.cases (env.clock w.ticks) (env.clock (w.ticks + 1))
      (env.statementFault w.ticks) o
    (served.1, { w with store := served.2, ticks := w.ticks + 2 })
  | .now, w => (env.clock w.ticks, w.tick)
  | .newOpaqueToken, w => (newOpaqueToken env w.ticks, w.tick)
  | .newUUID, w => (env.uuid w.ticks, w.tick)
  | .hashPassword password, w => (env.bcryptGenerate w.ticks password, w.tick)
  | .generateTOTP accountName, w => (env.totpGenerate w.ticks accountName, w.tick)
  | .validateTOTP code secret, w => (env.totpValidate (env.clock w.ticks) code secret, w.tick)
  | .generateOAuthState, w => (generateOAuthState env w.ticks, w.tick)
  | .putState p state edition, w => ((), w.tick.setStates ((w.states p).insert state edition) p)
  | .lookupState p state, w => ((w.states p).lookup state, w.tick)
  | .deleteState p state, w => ((), w.tick.setStates ((w.states p).erase state) p)
  | .exchange p code, w => (env.exchange w.ticks p code, w.tick)
  | .get url token, w => (env.get w.ticks url token, w.tick)

/-- Generated identifiers are non-empty and never repeat, nor do generated
tokens or their digests. -/
structure Fresh : Prop where
  uuid : ∀ {m n}, env.uuid m = env.uuid n → m = n
  uuid_ne : ∀ n, env.uuid n ≠ ""
  token : ∀ {m n raw raw'}, env.randomHex m = .ok raw → env.randomHex n = .ok raw' →
    hashToken env raw = hashToken env raw' → m = n

/-- Surroundings that can be computed: the draws count up in unary, digests and
hashes only mark their input, a one-time code repeats its secret, and each
provider vouches for the address it is given as a code. -/
def plain : Env where
  cases := asciiCase
  clock := fun n => n + 1
  randomHex := fun n => .ok (String.ofList (List.replicate (n + 1) 'a'))
  uuid := fun n => String.ofList (List.replicate (n + 1) '0')
  sha256Hex := fun s => "sha256:" ++ s
  bcryptGenerate := fun _ password => .ok ("$2a$10$" ++ password)
  bcryptCompare := fun hash password => hash = "$2a$10$" ++ password
  totpGenerate := fun n accountName =>
    .ok (String.ofList (List.replicate (n + 1) 'S'), "otpauth://totp/" ++ accountName)
  totpValidate := fun _ code secret => code = secret
  signedString := fun _ claims => .ok ("jwt:" ++ claims.id)
  statementFault := fun _ => none
  configured := fun _ => true
  exchange := fun _ _ code => .ok code
  get := fun _ _ token => .ok token
  decodeGoogleUser := fun body => .ok ⟨"", body, true⟩
  decodeGitHubUser := fun body => .ok ⟨"", "", body⟩
  decodeGitHubEmails := fun body => .ok [⟨body, true, true⟩]

theorem trimSpace_replicate {c : Char} (hc : isSpace c = false) (n : Nat) :
    trimSpace (String.ofList (List.replicate n c)) = String.ofList (List.replicate n c) := by
  have hd : ∀ m, (List.replicate m c).dropWhile isSpace = List.replicate m c := by
    intro m
    cases m with
    | zero => rfl
    | succ m => rw [List.replicate_succ, List.dropWhile_cons_of_neg (by simp [hc])]
  unfold trimSpace trimRunes
  rw [String.toList_ofList, hd, List.rdropWhile, List.reverse_replicate, hd, List.reverse_replicate]

theorem fresh_plain : Fresh plain := by
  constructor
  · intro m n h
    have h' := congrArg (fun s => s.toList.length) h
    simpa [plain] using h'
  · intro n h
    have h' := congrArg (fun s => s.toList.length) h
    simp [plain] at h'
  · intro m n raw raw' hr hr' h
    cases hr
    cases hr'
    simp only [hashToken] at h
    rw [trimSpace_replicate (by decide), trimSpace_replicate (by decide)] at h
    have h' := congrArg (fun s => s.toList.length) h
    simpa [plain] using h'

end RivicQ.Authn.Environment
