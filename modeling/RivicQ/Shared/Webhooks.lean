import RivicQ.Lib.Bytes
import RivicQ.Lib.GoStrings
import RivicQ.Lib.Tables

namespace RivicQ.Shared.DeliveryCache

open RivicQ.Lib.Tables

/-- Readings of a clock and the spans between them, in nanoseconds. -/
abbrev Time := Int

abbrev Duration := Int

structure DeliveryCacheEntry where
  seenAt : Time
  seq : Nat

structure DeliveryCache where
  seen : Table DeliveryCacheEntry := ∅
  seq : Nat := 0
  ttl : Duration
  max : Nat

/-- Thirty minutes. -/
def defaultWebhookReplayTTL : Duration := 1800000000000

def newDeliveryCache (ttl : Duration) (max : Int) : DeliveryCache where
  ttl := if ttl ≤ 0 then defaultWebhookReplayTTL else ttl
  max := if max ≤ 0 then 10000 else max.toNat

def githubDeliveries : DeliveryCache := newDeliveryCache defaultWebhookReplayTTL 20000

/-- The key with the lowest number, or the empty text. -/
def oldestKey (seen : Table DeliveryCacheEntry) : String :=
  (seen.entries.foldl (fun oldest e =>
    if oldest.1 = "" || e.2.seq < oldest.2 then (e.1, e.2.seq) else oldest) ("", 0)).1

/-- Make room for one more entry where there is none. -/
def evict (max : Nat) (seen : Table DeliveryCacheEntry) : Table DeliveryCacheEntry :=
  if max ≤ seen.keys.length then
    if oldestKey seen ≠ "" then seen.erase (oldestKey seen) else seen
  else seen

def fresh (ttl : Duration) (now : Time) (entry : DeliveryCacheEntry) : Bool :=
  now - entry.seenAt ≤ ttl

/-- Record an id, and report whether it is new in the window. -/
def rememberWithin (ttl : Duration) (id : String) (now : Time) (d : DeliveryCache) :
    Bool × DeliveryCache :=
  if id = "" then (true, d)
  else
    let seen := retain (fresh ttl now) d.seen
    if (seen.lookup id).any (fresh ttl now) then (false, { d with seen })
    else
      let seq := d.seq + 1
      (true, { d with seen := (evict d.max seen).insert id { seenAt := now, seq }, seq })

def remember (id : String) (now : Time) (d : DeliveryCache) : Bool × DeliveryCache :=
  rememberWithin d.ttl id now d

/-- The window of a call: the cache's own where none is given. -/
def window (ttl : Duration) (d : DeliveryCache) : Duration := if ttl ≤ 0 then d.ttl else ttl

def rememberFor (id : String) (ttl : Duration) (now : Time) (d : DeliveryCache) :
    Bool × DeliveryCache :=
  let ttl := window ttl d
  if ttl = d.ttl then remember id now d else rememberWithin ttl id now d

variable {ttl : Duration} {now : Time} {id : String} {d : DeliveryCache}

theorem rememberFor_eq : rememberFor id ttl now d = rememberWithin (window ttl d) id now d := by
  simp only [rememberFor, remember]
  split_ifs with h
  · rw [h]
  · rfl

/-- The cache holds an id that is still in the window. -/
def Holds (ttl : Duration) (now : Time) (id : String) (d : DeliveryCache) : Prop :=
  ∃ entry, d.seen.lookup id = some entry ∧ now - entry.seenAt ≤ ttl

theorem holds_iff : Holds ttl now id d ↔
    ((retain (fresh ttl now) d.seen).lookup id).any (fresh ttl now) = true := by
  rw [lookup_retain, Holds]
  cases d.seen.lookup id with
  | none => simp
  | some entry =>
    by_cases h : fresh ttl now entry = true
    · simpa [h] using of_decide_eq_true h
    · simpa [h] using mt (decide_eq_true (p := now - entry.seenAt ≤ ttl)) h

instance : Decidable (Holds ttl now id d) := decidable_of_iff' _ holds_iff

/-- An id is new exactly if it is missing or not held in the window. -/
theorem rememberWithin_new : (rememberWithin ttl id now d).1 = true ↔
    id = "" ∨ ¬ Holds ttl now id d := by
  rw [holds_iff]
  by_cases hid : id = ""
  · simp [rememberWithin, hid]
  by_cases hheld : ((retain (fresh ttl now) d.seen).lookup id).any (fresh ttl now) = true <;>
    simp [rememberWithin, hid, hheld]

/-- Where nothing has run out, remembering a new id adds it to what there is room for. -/
theorem rememberWithin_insert (hid : id ≠ "") (hnew : (rememberWithin ttl id now d).1 = true)
    (hfresh : ∀ k entry, d.seen.lookup k = some entry → fresh ttl now entry = true)
    (hroom : d.seen.keys.length < d.max) :
    (rememberWithin ttl id now d).2 = { d with
      seen := d.seen.insert id { seenAt := now, seq := d.seq + 1 }, seq := d.seq + 1 } := by
  have hheld : ¬ Holds ttl now id d := (rememberWithin_new.mp hnew).resolve_left hid
  rw [holds_iff, retain_all hfresh] at hheld
  unfold rememberWithin
  rw [if_neg hid]
  simp only [retain_all hfresh, if_neg hheld, evict, if_neg (Nat.not_le.mpr hroom)]

theorem rememberWithin_keep (hid : id ≠ "") (hold : (rememberWithin ttl id now d).1 = false)
    (hfresh : ∀ k entry, d.seen.lookup k = some entry → fresh ttl now entry = true) :
    (rememberWithin ttl id now d).2 = d := by
  have hheld : Holds ttl now id d := by
    by_contra h
    exact absurd (rememberWithin_new.mpr (.inr h)) (by rw [hold]; decide)
  rw [holds_iff, retain_all hfresh] at hheld
  unfold rememberWithin
  rw [if_neg hid]
  simp only [retain_all hfresh, if_pos hheld]

end RivicQ.Shared.DeliveryCache

namespace RivicQ.Shared.Webhooks

open RivicQ.Lib.GoStrings RivicQ.Lib.Base64 RivicQ.Shared.DeliveryCache

abbrev Bytes := List UInt8

/-- HMAC-SHA256 of a payload under a secret. -/
abbrev Hmac := String → Bytes → Bytes

def verifyGitHubSignature (hmac : Hmac) (secret : String) (payload : Bytes) (header : String) :
    Except String Unit :=
  if secret = "" then .error "webhook secret is not configured"
  else if header = "" then .error "missing X-Hub-Signature-256 header"
  else if !hasPrefix header "sha256=" then .error "unsupported signature algorithm"
  else
    match decodeString (trimPrefix header "sha256=") with
    | none => .error "malformed signature encoding"
    | some provided =>
      if provided ≠ hmac secret payload then .error "signature mismatch" else .ok ()

/-- A decoded JSON value, as far as the handler looks into it. -/
inductive Json where
  | object (fields : String → Option Json)
  | text (s : String)
  | other

def Json.fields : Option Json → String → Option Json
  | some (.object fields) => fields
  | _ => fun _ => none

def Json.string : Option Json → String
  | some (.text s) => s
  | _ => ""

/-- The environment variables of the process, read and parsed. -/
structure Settings where
  secret : String
  maxWebhookBodyBytes : Nat
  webhookReplayTTL : Duration

/-- A request; a body that cannot be read to its end is `none`. -/
structure Delivery where
  event : String
  id : String
  signature : String
  body : Option Bytes
  deriving DecidableEq

inductive Answer where
  | webhookDisabled
  | payloadTooLarge
  | unreadable
  | invalidSignature
  | duplicateDelivery
  | ignored (event delivery : String)
  | malformedPayload
  | repositoryRequired
  | repositoryMalformed
  | queuedLater (event delivery : String)
  | accepted (event delivery : String)
  deriving DecidableEq

/-- The status and the fields of the response. -/
def Answer.response : Answer → Nat × List (String × String)
  | .webhookDisabled => (503, [("error", "webhook_disabled"),
      ("message", "GitHub webhook secret is not configured")])
  | .payloadTooLarge => (413, [("error", "payload_too_large")])
  | .unreadable => (400, [("error", "failed to read payload")])
  | .invalidSignature => (401, [("error", "invalid signature")])
  | .duplicateDelivery => (409, [("error", "duplicate_delivery")])
  | .ignored event delivery => (200, [("status", "ignored"), ("event", event),
      ("delivery", delivery)])
  | .malformedPayload => (400, [("error", "malformed payload")])
  | .repositoryRequired => (400, [("error", "repository.full_name is required")])
  | .repositoryMalformed => (400, [("error", "repository.full_name is malformed")])
  | .queuedLater event delivery => (202, [("status", "queued_later"), ("event", event),
      ("delivery", delivery)])
  | .accepted event delivery => (200, [("status", "accepted"), ("event", event),
      ("delivery", delivery)])

/-- The scans that deliveries may have running at a time. -/
def webhookScanConcurrency : Nat := 4

variable (hmac : Hmac) (unmarshal : Bytes → Option (String → Option Json)) (cfg : Settings)

/-- The handler up to the answer of the delivery cache. -/
def screen (now : Time) (r : Delivery) (cache : DeliveryCache) :
    Except Answer Bytes × DeliveryCache :=
  if cfg.secret = "" then (.error .webhookDisabled, cache)
  else
    match r.body with
    | none => (.error .unreadable, cache)
    | some payload =>
      if cfg.maxWebhookBodyBytes < payload.length then (.error .payloadTooLarge, cache)
      else
        match verifyGitHubSignature hmac cfg.secret payload r.signature with
        | .error _ => (.error .invalidSignature, cache)
        | .ok _ =>
          let (isNew, cache) := rememberFor r.id cfg.webhookReplayTTL now cache
          if !isNew then (.error .duplicateDelivery, cache) else (.ok payload, cache)

/-- The repository that a payload names. -/
def repository (payload : Bytes) : Except Answer String :=
  match unmarshal payload with
  | none => .error .malformedPayload
  | some eventData =>
    let fullName := Json.string (Json.fields (eventData "repository") "full_name")
    if trimSpace fullName = "" then .error .repositoryRequired
    else
      match cut fullName '/' with
      | none => .error .repositoryMalformed
      | some (owner, _) => if owner = "" then .error .repositoryMalformed else .ok fullName

/-- The rest of the handler, with the scans that are running. -/
def dispatch (r : Delivery) (payload : Bytes) (running : Nat) : Answer × Nat :=
  if r.event ≠ "push" ∧ r.event ≠ "pull_request" then (.ignored r.event r.id, running)
  else
    match repository unmarshal payload with
    | .error a => (a, running)
    | .ok _ =>
      -- The scan that is started here holds its slot until it has finished.
      if running < webhookScanConcurrency then (.accepted r.event r.id, running + 1)
      else (.queuedLater r.event r.id, running)

/-- A server with the scans it runs, and the deliveries on their way from the cache to a slot. -/
structure Server where
  cache : DeliveryCache := githubDeliveries
  running : Nat := 0
  waiting : List (Delivery × Bytes) := []

inductive Event where
  /-- A request arrives, and reads the clock before it reaches the cache. -/
  | deliver (r : Delivery) (now : Time)
  /-- One of those that passed the cache goes on. -/
  | dispatch (i : Nat)
  /-- A scan finishes. -/
  | finish

/-- The answer that is given in a step, with the request it is for. -/
abbrev Answered := Option (Delivery × Answer)

/-- A request that passed waits to be dispatched. -/
def receive (r : Delivery) (st : Server) : Except Answer Bytes × DeliveryCache → Answered × Server
  | (.error a, cache) => (some (r, a), { st with cache })
  | (.ok payload, cache) => (none, { st with cache, waiting := st.waiting ++ [(r, payload)] })

def step (st : Server) : Event → Answered × Server
  | .deliver r now => receive r st (screen hmac cfg now r st.cache)
  | .dispatch i =>
    match st.waiting[i]? with
    | none => (none, st)
    | some (r, payload) =>
      let (a, running) := dispatch unmarshal r payload st.running
      (some (r, a), { st with running, waiting := st.waiting.eraseIdx i })
  | .finish => (none, { st with running := st.running - 1 })

/-- The answers given in a run, with the server at its end. -/
def run (st : Server) : List Event → List (Delivery × Answer) × Server
  | [] => ([], st)
  | e :: es =>
    let (a, st) := step hmac unmarshal cfg st e
    let (answers, st) := run st es
    (a.toList ++ answers, st)

/-- The handler with nothing in between. -/
def gitHubWebhookHandler (now : Time) (r : Delivery) (st : Server) : Answer × Server :=
  match screen hmac cfg now r st.cache with
  | (.error a, cache) => (a, { st with cache })
  | (.ok payload, cache) =>
    let (a, running) := dispatch unmarshal r payload st.running
    (a, { st with cache, running })

/-- A push that GitHub would send for this secret, but for the encoding of its signature. -/
def push : Delivery where
  event := "push"
  id := "72d3162e-cc78-11e3-81ab-4c9367dc0958"
  signature := "sha256=Y5SCoHgwxonwrYoQDik1vNiMfBHA73nn0DkGpJtatyE="
  body := some "\x7b\"repository\":\x7b\"full_name\":\"acme/widgets\"\x7d\x7d".toUTF8.data.toList

def pushSettings : Settings where
  secret := "It's a Secret to Everybody"
  maxWebhookBodyBytes := 8388608
  webhookReplayTTL := defaultWebhookReplayTTL

/-- HMAC-SHA256 on the push. -/
def pushHmac : Hmac := fun secret payload =>
  if secret = pushSettings.secret ∧ some payload = push.body then
    [99, 148, 130, 160, 120, 48, 198, 137, 240, 173, 138, 16, 14, 41, 53, 188, 216, 140, 124, 17,
      192, 239, 121, 231, 208, 57, 6, 164, 155, 90, 183, 33]
  else List.replicate 32 0

/-- The JSON of the push. -/
def pushUnmarshal : Bytes → Option (String → Option Json) := fun payload =>
  if some payload = push.body then some fun key =>
    if key = "repository" then some (.object fun key =>
      if key = "full_name" then some (.text "acme/widgets") else none)
    else none
  else none

end RivicQ.Shared.Webhooks
