import RivicQ.Authn.Middleware
import RivicQ.Shared.OAuth

namespace RivicQ.Runs.Calls

open RivicQ.Lib.Programs RivicQ.Lib.Pools RivicQ.Authn RivicQ.Authn.Types RivicQ.Authn.Stores
open RivicQ.Authn.Environment RivicQ.Authn.Operations RivicQ.Authn.Handlers RivicQ.Shared.OAuth

variable {α β : Type}

/-- The operations of the service, the two handlers that edit a record, and the
provider handshakes. -/
inductive Call where
  | seedBootstrap
  | register (name email password organisation : String)
  | verifyEmail (rawToken : String)
  | login (email password edition userAgent ip : String)
  | verifyMFA (mfaSession code userAgent ip : String)
  | refresh (refreshToken userAgent ip : String)
  | logout (refreshToken : String)
  | forgotPassword (email : String)
  | resetPassword (rawToken newPassword : String)
  | changePassword (userID current next : String)
  | setupMFA (userID : String)
  | confirmMFA (userID code : String)
  | disableMFA (userID password : String)
  | demoLogin (userAgent ip : String)
  | listSessions (userID : String)
  | revokeSession (userID sessionID : String)
  | ensureExternalUser (email name organisation : String)
  | issueTokens (u : User) (edition userAgent ip : String)
  | lookupByID (id : String)
  | lookupByEmail (email : String)
  | updateUser (u : User)
  | listUsersByTenant (tenantID : String)
  | patchMe (callerID : String) (body : Option String)
  | patchWorkspaceRole (callerID callerTenant id : String) (body : Option String)
  | googleLogin (edition : Option String)
  | googleCallback (oauthErr code state : String)
  | googleExchange (code state : String)
  | githubLogin (edition : Option String)
  | githubCallback (code state userAgent ip : String)

/-- What a call hands back when it succeeds. -/
inductive Answer where
  | unit
  | tokens (pair : TokenPair)
  | mfaRequired (user : User) (mfaSession : String)
  | registered (user : User) (verification : String)
  | resetToken (raw : Option String)
  | secret (secret uri : String)
  | sessions (list : List Session)
  | user (u : User)
  | users (list : List User)
  | response (r : UserResponse)
  | state (s : String)
  | completed (c : Completion)
  deriving DecidableEq

/-- The token pair an answer carries. -/
def Answer.pair : Answer → Option TokenPair
  | .tokens pair => some pair
  | .completed c => some c.pair
  | _ => none

/-- The token pair a call returns, if it returns one. -/
def pairOf : Except Err Answer → Option TokenPair
  | .ok a => a.pair
  | .error _ => none

def loginAnswer : LoginResult → Answer
  | .tokens pair => .tokens pair
  | .mfaRequired user mfaSession => .mfaRequired user mfaSession

def answering (f : α → Answer) (p : Prog α) : Prog Answer := orReturn p fun a => done (f a)

variable (env : Env) (cfg : Config)

def program : Call → Prog Answer
  | .seedBootstrap => answering (fun _ => .unit) (seedBootstrap env cfg)
  | .register name email password organisation =>
    answering (fun r => .registered r.1 r.2) (register env cfg name email password organisation)
  | .verifyEmail rawToken => answering (fun _ => .unit) (verifyEmail env rawToken)
  | .login email password edition userAgent ip =>
    answering loginAnswer (login env cfg email password edition userAgent ip)
  | .verifyMFA mfaSession code userAgent ip =>
    answering .tokens (verifyMFA env cfg mfaSession code userAgent ip)
  | .refresh refreshToken userAgent ip =>
    answering .tokens (refresh env cfg refreshToken userAgent ip)
  | .logout refreshToken => answering (fun _ => .unit) (logout env refreshToken)
  | .forgotPassword email => answering .resetToken (forgotPassword env cfg email)
  | .resetPassword rawToken newPassword =>
    answering (fun _ => .unit) (resetPassword env rawToken newPassword)
  | .changePassword userID current next =>
    answering (fun _ => .unit) (changePassword env userID current next)
  | .setupMFA userID => answering (fun r => .secret r.1 r.2) (setupMFA userID)
  | .confirmMFA userID code => answering (fun _ => .unit) (confirmMFA userID code)
  | .disableMFA userID password => answering (fun _ => .unit) (disableMFA env userID password)
  | .demoLogin userAgent ip => answering .tokens (demoLogin env cfg userAgent ip)
  | .listSessions userID => answering .sessions (listSessions userID)
  | .revokeSession userID sessionID => answering (fun _ => .unit) (revokeSession userID sessionID)
  | .ensureExternalUser email name organisation =>
    answering .user (ensureExternalUser env cfg email name organisation)
  | .issueTokens u edition userAgent ip =>
    answering .tokens (issueTokens env cfg u edition userAgent ip)
  | .lookupByID id => answering .user (lookupByID id)
  | .lookupByEmail email => answering .user (lookupByEmail email)
  | .updateUser u => answering (fun _ => .unit) (updateUser u)
  | .listUsersByTenant tenantID => answering .users (listUsersByTenant tenantID)
  | .patchMe callerID body => answering .response (patchMe callerID body)
  | .patchWorkspaceRole callerID callerTenant id body =>
    answering .response (patchWorkspaceRole env.cases callerID callerTenant id body)
  | .googleLogin edition => answering .state (googleLogin env edition)
  | .googleCallback oauthErr code state =>
    answering .completed (googleCallback env cfg oauthErr code state)
  | .googleExchange code state => answering .completed (googleExchange env cfg code state)
  | .githubLogin edition => answering .state (githubLogin env edition)
  | .githubCallback code state userAgent ip =>
    answering .completed (githubCallback env cfg code state userAgent ip)

/-- A demo deployment with open registration and the default lifetimes. -/
def demoConfig : Config where
  secret := "0123456789abcdef0123456789abcdef"
  issuer := "rivicq"
  audience := "rivicq-api"
  accessTTL := 900000000000
  refreshTTL := 604800000000000
  resetTTL := 1800000000000
  verifyTTL := 86400000000000
  mfaSessionTTL := 600000000000
  demoMode := true
  allowRegistration := true
  requireVerification := false
  allowedDomains := []
  bootstrapEmail := "root@rivicq.com"
  bootstrapPassword := "Str0ng-Passphrase"
  bootstrapName := "Root"
  bootstrapRole := none
  defaultTenantID := "tenant-1"

/-- A service that has just been set up on an empty store. -/
def start (st : Store) : World := ⟨st, ∅, ∅, 0⟩

/-- What a call returns when nothing runs beside it. -/
def outcome (c : Call) (w : World) : Except Err Answer :=
  (run (handle env) (program env cfg c) w).1

def after (c : Call) (w : World) : World := (run (handle env) (program env cfg c) w).2

/-- The state after a serial run. -/
def serially : List Call → World → World
  | [], w => w
  | c :: calls, w => serially calls (after env cfg c w)

/-- The calls as threads of a pool, none of them begun. -/
def together (calls : List Call) (w : World) : Pool Calls World (Except Err Answer) :=
  ⟨w, calls.map (program env cfg)⟩

/-- A state that some calls, interleaved in some way, lead to from an empty store. -/
def Reachable (w : World) : Prop :=
  ∃ st, Store.Empty st ∧ ∃ calls sched,
    ((together env cfg calls (start st)).run (handle env) sched).world = w

variable {env cfg}

theorem exists_run_serially (calls : List Call) (ps : List (Prog Answer)) (w : World) :
    ∃ sched, (Pool.run (handle env) ⟨w, ps ++ calls.map (program env cfg)⟩ sched).world =
      serially env cfg calls w := by
  induction calls generalizing ps w with
  | nil => exact ⟨[], rfl⟩
  | cons c calls ih =>
    have hlt : ps.length < (ps ++ (c :: calls).map (program env cfg)).length := by
      simp
    have hset : ∀ q, (ps ++ (c :: calls).map (program env cfg)).set ps.length q =
        ps ++ q :: calls.map (program env cfg) := by
      intro q
      rw [List.set_append_right _ _ (Nat.le_refl _), Nat.sub_self]
      rfl
    obtain ⟨sched, hs⟩ := Pool.exists_run_alone (handle env) (program env cfg c) hlt w
    obtain ⟨sched', hs'⟩ := ih (ps ++ [.pure (outcome env cfg c w)]) (after env cfg c w)
    refine ⟨ps.length :: sched ++ sched', ?_⟩
    rw [hset, hset] at hs
    rw [List.append_assoc] at hs'
    rw [Pool.run_append, List.map_cons, hs]
    exact hs'

/-- A serial run is one of the interleavings. -/
theorem reachable_serially {st : Store} (hst : Store.Empty st) (calls : List Call) :
    Reachable env cfg (serially env cfg calls (start st)) := by
  obtain ⟨sched, hs⟩ := exists_run_serially calls [] (start st)
  exact ⟨st, hst, calls, sched, hs⟩

theorem exists_ok {o : Option (Except Err Answer)} (h : o.map Except.isOk = some true) :
    ∃ a, o = some (.ok a) := by
  match o with
  | some (.ok a) => exact ⟨a, rfl⟩
  | some (.error e) => cases h
  | none => cases h

theorem ok_of_pairOf {r : Except Err Answer} {pair : TokenPair} (h : pairOf r = some pair) :
    ∃ a, r = .ok a ∧ a.pair = some pair := by
  cases r with
  | error e => cases h
  | ok a => exact ⟨a, rfl, h⟩

/-- The state after a serial run of the demo deployment. -/
def demo (calls : List Call) : World :=
  serially plain demoConfig calls (start (.memory Memory.empty))

theorem reachable_demo (calls : List Call) : Reachable plain demoConfig (demo calls) :=
  reachable_serially (Or.inl rfl) calls

/-- A user registers and signs in. -/
def signedIn : List Call :=
  [.register "Ada" "ada@example.org" "Tr0ub4dor-lake" "",
    .login "ada@example.org" "Tr0ub4dor-lake" "" "" ""]

/-- A user registers and enables the second factor. -/
def enrolled : List Call :=
  [.register "Ada" "ada@example.org" "Tr0ub4dor-lake" "", .setupMFA "00",
    .confirmMFA "00" "SSSSSSS"]

/-- After which a sign-in ends in a challenge. -/
def challenged : List Call := enrolled ++ [.login "ada@example.org" "Tr0ub4dor-lake" "" "" ""]

/-- The answer to that challenge. -/
def codeGiven : Call := .verifyMFA "aaaaaaaaaaaaaaaaa" "SSSSSSS" "" ""

/-- The call that stores an edited version of a record. -/
def editing (id : String) (edit : User → User) (w : World) : Call :=
  match w.ledger.user id with
  | some u => .updateUser (edit u)
  | none => .lookupByID id

end RivicQ.Runs.Calls
