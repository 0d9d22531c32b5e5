import Mathlib.Logic.Function.Basic
import RivicQ.Lib.Channels
import RivicQ.Lib.EventStreams

namespace RivicQ.Shared.Events

open RivicQ.Lib.Channels RivicQ.Lib.JSONText

structure ScanProgress where
  scanID : String
  status : String
  progress : Nat
  findings : Nat
  message : String
  timestamp : String

def stages : List String :=
  ["Connecting to target...", "Discovering cryptographic assets...", "Analyzing algorithms...",
    "Checking quantum vulnerability...", "Generating CBOM report..."]

def scanning (scanID : String) (i : Nat) (stage now : String) : ScanProgress where
  scanID := scanID
  status := "scanning"
  progress := if i * 100 / stages.length + 10 > 90 then 90 else i * 100 / stages.length + 10
  findings := i * 3
  message := stage
  timestamp := now

def complete (scanID now : String) : ScanProgress where
  scanID := scanID
  status := "completed"
  progress := 100
  findings := 15
  message := "Scan completed successfully"
  timestamp := now

/-- `json.Marshal`: an empty message is left out. -/
def marshal (e : ScanProgress) : String :=
  "\x7b\"scan_id\":" ++ string e.scanID ++ ",\"status\":" ++ string e.status ++
    ",\"progress\":" ++ toString e.progress ++ ",\"findings\":" ++ toString e.findings ++
    (if e.message = "" then "" else ",\"message\":" ++ string e.message) ++
    ",\"timestamp\":" ++ string e.timestamp ++ "\x7d"

/-- What is sent after `i` stages: the next one, or that the scan is complete. -/
def evt (scanID : String) (i : Nat) (now : String) : ScanProgress :=
  match stages[i]? with
  | some stage => scanning scanID i stage now
  | none => complete scanID now

def progressFrame (msg : String) : String := "event: progress\ndata: " ++ msg ++ "\n\n"

def doneData (scanID : String) : String :=
  "\x7b\"scan_id\":\"" ++ scanID ++ "\",\"status\":\"completed\"\x7d"

def doneFrame (scanID : String) : String := "event: done\ndata: " ++ doneData scanID ++ "\n\n"

/-- The goroutines of a request: the one that serves it, and the one that it starts. -/
inductive Thread where
  | handler (r : Nat)
  | simulator (r : Nat)
  deriving DecidableEq

def Thread.request : Thread → Nat
  | .handler r => r
  | .simulator r => r

structure ScanSession where
  msg : Channel String
  done : Bool
  closed : Bool
  mu : Option Thread

/-- Where a goroutine is in `send`, once `ss.mu.Lock` is behind it. -/
inductive Sending where
  | lock
  | test
  | offer
  deriving DecidableEq

/-- Where a goroutine is in `close`. -/
inductive Closing where
  | lock
  | test
  | mark
  | closeDone
  | closeMsg
  | lockSessions
  | delete
  deriving DecidableEq

/-- Where a goroutine is. A session is named by the request that it was created for. -/
inductive Position where
  | idle
  | createSession
  | create
  | streaming
  | getSession
  | get
  | stage (i ss : Nat)
  | send (i ss : Nat) (data : String) (p : Sending)
  | sleep (i ss : Nat)
  | close (ss : Nat) (p : Closing)
  | finished
  deriving DecidableEq

structure State where
  /-- Who holds the lock of the map of sessions. -/
  mu : Option Thread
  sessions : String → Option Nat
  session : Nat → ScanSession
  scanID : Nat → String
  position : Thread → Position
  /-- The client of a request has gone. -/
  gone : Nat → Bool
  /-- What has been written to the client. -/
  body : Nat → List String

inductive Action where
  | arrive (r : Nat) (param query fresh : String)
  | disconnect (r : Nat)
  /-- The handler finds in `c.Stream` that the client has gone. -/
  | leave (r : Nat)
  /-- The handler takes the branch of a request context that is done. -/
  | cancel (r : Nat)
  /-- A goroutine goes on; the clock shows `now`. -/
  | go (t : Thread) (now : String)

/-- The session that `createSession` makes. -/
def newSession : ScanSession := ⟨.make 64, false, false, none⟩

def initial : State where
  mu := none
  sessions := fun _ => none
  session := fun _ => newSession
  scanID := fun _ => ""
  position := fun _ => .idle
  gone := fun _ => false
  body := fun _ => []

namespace State

open Function (update)

def move (s : State) (t : Thread) (p : Position) : State :=
  { s with position := update s.position t p }

def set (s : State) (ss : Nat) (x : ScanSession) : State :=
  { s with session := update s.session ss x }

def write (s : State) (r : Nat) (frame : String) : State :=
  { s with body := update s.body r (s.body r ++ [frame]) }

/-- `ss.mu.Unlock`. -/
def unlock (s : State) (ss : Nat) : State := s.set ss { s.session ss with mu := none }

/-- `ss.mu.Lock`. -/
def lock (s : State) (t : Thread) (ss : Nat) (p : Position) : Outcome State :=
  match (s.session ss).mu with
  | none => .moves ((s.set ss { s.session ss with mu := some t }).move t p)
  | some _ => .blocked

/-- `mu.Lock`. -/
def lockSessions (s : State) (t : Thread) (p : Position) : Outcome State :=
  match s.mu with
  | none => .moves ({ s with mu := some t }.move t p)
  | some _ => .blocked

/-- Where `simulateScan` goes on once it has sent its event `i`. -/
def sent (i ss : Nat) : Position := if i < stages.length then .sleep i ss else .close ss .lock

def send (s : State) (t : Thread) (i ss : Nat) (data : String) : Sending → Outcome State
  | .lock => s.lock t ss (.send i ss data .test)
  | .test =>
    .moves (if (s.session ss).closed then (s.unlock ss).move t (sent i ss)
      else s.move t (.send i ss data .offer))
  | .offer =>
    ((s.session ss).msg.offer data).map fun msg =>
      (s.set ss { s.session ss with msg, mu := none }).move t (sent i ss)

def close (s : State) (t : Thread) (ss : Nat) : Closing → Outcome State
  | .lock => s.lock t ss (.close ss .test)
  | .test =>
    .moves (if (s.session ss).closed then (s.unlock ss).move t .finished
      else s.move t (.close ss .mark))
  | .mark => .moves ((s.set ss { s.session ss with closed := true }).move t (.close ss .closeDone))
  | .closeDone =>
    if (s.session ss).done then .panics
    else .moves ((s.set ss { s.session ss with done := true }).move t (.close ss .closeMsg))
  | .closeMsg =>
    (s.session ss).msg.close.map fun msg =>
      (s.set ss { s.session ss with msg }).move t (.close ss .lockSessions)
  | .lockSessions => s.lockSessions t (.close ss .delete)
  | .delete =>
    let s := { s with mu := none, sessions := update s.sessions (s.scanID ss) none }
    .moves ((s.unlock ss).move t .finished)

/-- One step of a goroutine. -/
def go (s : State) (t : Thread) (now : String) : Outcome State :=
  match s.position t with
  | .idle => .blocked
  | .createSession => s.lockSessions t .create
  | .create =>
    let r := t.request
    let s := { s with mu := none, sessions := update s.sessions (s.scanID r) (some r) }
    .moves (((s.set r newSession).move t .streaming).move (.simulator r) .getSession)
  | .streaming =>
    let r := t.request
    match (s.session r).msg.receive with
    | .moves (some m, msg) =>
      .moves ((s.set r { s.session r with msg }).write r (progressFrame m))
    | .moves (none, _) => .moves ((s.write r (doneFrame (s.scanID r))).move t .finished)
    | .blocked => .blocked
    | .panics => .panics
  | .getSession => s.lockSessions t .get
  | .get =>
    .moves ({ s with mu := none }.move t
      (match s.sessions (s.scanID t.request) with
        | none => .finished
        | some ss => .stage 0 ss))
  | .stage i ss =>
    .moves (s.move t (if i < stages.length ∧ (s.session ss).done then .finished
      else .send i ss (marshal (evt (s.scanID t.request) i now)) .lock))
  | .send i ss data p => s.send t i ss data p
  | .sleep i ss => .moves (s.move t (if (s.session ss).done then .finished else .stage (i + 1) ss))
  | .close ss p => s.close t ss p
  | .finished => .blocked

/-- The id that a request is for: a path parameter, else a query parameter, else a new one. -/
def idOf (param query fresh : String) : String :=
  if param ≠ "" then param else if query ≠ "" then query else fresh

def step (s : State) : Action → Outcome State
  | .arrive r param query fresh =>
    if s.position (.handler r) = .idle then
      .moves ({ s with scanID := update s.scanID r (idOf param query fresh) }.move
        (.handler r) .createSession)
    else .blocked
  | .disconnect r => .moves { s with gone := update s.gone r true }
  | .leave r =>
    if s.position (.handler r) = .streaming ∧ s.gone r = true then
      .moves (s.move (.handler r) .finished)
    else .blocked
  | .cancel r =>
    if s.position (.handler r) = .streaming ∧ s.gone r = true then
      .moves (s.move (.handler r) (.close r .lock))
    else .blocked
  | .go t now => s.go t now

end State

end RivicQ.Shared.Events
