import RivicQ.Lib.GoStrings
import RivicQ.Lib.QueryStrings
import RivicQ.Lib.Runes

namespace RivicQ.Middleware.Audit

open RivicQ.Lib.Bytes RivicQ.Lib.GoStrings RivicQ.Lib.QueryStrings RivicQ.Lib.Runes

def sensitiveQueryKeys : List String :=
  ["token", "secret", "password", "passwd", "key", "api_key", "apikey", "private_key",
    "access_token", "refresh_token", "authorization", "code", "client_secret", "sig"]

variable (cm : CaseMap) (limit : Limit)

/-- The lowercased name of a parameter contains one of the keys. -/
def sensitive (k : Bytes) : Bool :=
  sensitiveQueryKeys.any fun s => decide (s.toList <:+: (chars (runes k)).map cm.lower)

def redacted : Bytes := ascii "[REDACTED]"

/-- One value for each parameter with a sensitive name, whatever it had. -/
def redact (q : Values) : Values :=
  (q.map Prod.fst).dedup.foldl (fun q k => if sensitive cm k then q.set k redacted else q) q

def redactQuery (raw : Bytes) : Bytes :=
  if raw = [] then []
  else
    match parseQuery limit raw with
    | none => ascii "[unparsable]"
    | some q => (redact cm q).encode

/-- A request as the middleware sees it, with the identifier that is drawn if it has none. -/
structure Request where
  path : Bytes
  rawQuery : Bytes
  method : Bytes
  requestID : String
  freshID : String
  clientIP : String
  userAgent : Bytes

/-- What the handlers have done when they are through. -/
structure Handled where
  status : Nat
  size : Int
  latencyMs : Int
  tenantID : String
  userID : String

inductive Level where
  | error
  | warn
  | info

structure Entry where
  level : Level
  message : String
  requestID : String
  method : Bytes
  path : Bytes
  status : Nat
  latencyMs : Int
  ip : String
  userAgent : Bytes
  bodyBytes : Int

/-- What goes into `audit_events`. -/
structure AuditEvent where
  tenantID : String
  eventType : String
  requestID : String
  method : Bytes
  path : Bytes
  status : Nat
  latencyMs : Int
  ip : String
  userAgent : Bytes
  actorID : String

def loggedPath (r : Request) : Bytes :=
  let raw := redactQuery cm limit r.rawQuery
  if raw = [] then r.path else r.path ++ 0x3f :: raw

/-- The entry of the log, and the event where there is a database. -/
def audit (hasDB : Bool) (r : Request) (h : Handled) : Entry × Option AuditEvent :=
  let path := loggedPath cm limit r
  let rid := if r.requestID = "" then r.freshID else r.requestID
  let (level, message, eventType) :=
    if 500 ≤ h.status then (Level.error, "server error", "server_error")
    else if 400 ≤ h.status then (.warn, "client error", "client_error")
    else (.info, "request", "request")
  ({ level, message, requestID := rid, method := r.method, path, status := h.status
     latencyMs := h.latencyMs, ip := r.clientIP, userAgent := r.userAgent, bodyBytes := h.size },
    if hasDB then
      some { tenantID := h.tenantID, eventType, requestID := rid, method := r.method, path
             status := h.status, latencyMs := h.latencyMs, ip := r.clientIP
             userAgent := r.userAgent, actorID := h.userID }
    else none)

end RivicQ.Middleware.Audit
