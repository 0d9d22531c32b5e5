import RivicQ.Shared.Webhooks

namespace RivicQ.Platform.Payments

open RivicQ.Lib.GoStrings RivicQ.Lib.Base64
open RivicQ.Shared.Webhooks (Bytes Hmac)

abbrev Environ := String → String

inductive PaymentError where
  | paymentNotLive
  | duplicateEvent
  | badSignature
  | eventIDRequired
  deriving DecidableEq

def PaymentError.text : PaymentError → String
  | .paymentNotLive => "payment adapter is not configured"
  | .duplicateEvent => "webhook already processed"
  | .badSignature => "invalid webhook signature"
  | .eventIDRequired => "event id required"

structure StubPayments where
  seen : List String
  secret : String
  provider : String
  deriving DecidableEq

def newStubPayments (environ : Environ) : StubPayments where
  seen := []
  secret := trimSpace (environ "RIVICQ_PAYMENTS_WEBHOOK_SECRET")
  provider :=
    let provider := trimSpace (environ "RIVICQ_PAYMENTS_PROVIDER")
    if provider = "" then "stub" else provider

/-- Either setting is enough. -/
def configured (environ : Environ) : Bool :=
  trimSpace (environ "RIVICQ_PAYMENTS_WEBHOOK_SECRET") ≠ "" ||
    trimSpace (environ "STRIPE_SECRET_KEY") ≠ ""

def StubPayments.providerName (environ : Environ) (s : StubPayments) : String :=
  if configured environ ∧ s.provider = "stub" then "configured_stub" else s.provider

/-- What `HandleWebhook` returns for an event it takes. -/
structure Acceptance where
  eventID : String
  provider : String
  deriving DecidableEq

variable (cm : CaseMap) (hmac : Hmac)

/-- A signature that spells the digest of the body under a secret. -/
def Signed (secret signature : String) (body : Bytes) : Prop :=
  toLower cm (trimSpace signature) = toLower cm (hexString (hmac secret body))

instance (secret signature : String) (body : Bytes) :
    Decidable (Signed cm hmac secret signature body) :=
  inferInstanceAs (Decidable (_ = _))

def handleWebhook (environ : Environ) (eventID signature : String) (body : Bytes)
    (s : StubPayments) : Except PaymentError Acceptance × StubPayments :=
  if !configured environ then (.error .paymentNotLive, s)
  else if s.secret ≠ "" ∧ ¬ Signed cm hmac s.secret signature body then (.error .badSignature, s)
  else
    let eventID := trimSpace eventID
    if eventID = "" then (.error .eventIDRequired, s)
    else if s.seen.contains eventID then (.error .duplicateEvent, s)
    else
      (.ok { eventID, provider := s.providerName environ }, { s with seen := eventID :: s.seen })

/-- A request, with the environment it finds; a body that cannot be read to its end is `none`. -/
structure Request where
  environ : Environ
  eventHeader : String
  eventQuery : String
  signatureHeader : String
  body : Option Bytes

def Request.eventID (r : Request) : String :=
  if trimSpace r.eventHeader = "" then trimSpace r.eventQuery else trimSpace r.eventHeader

inductive Answer where
  | error (status : Nat) (message : String)
  | duplicate (eventID : String)
  | accepted (result : Acceptance)
  deriving DecidableEq

/-- The status and the fields of the response. -/
def Answer.response : Answer → Nat × List (String × String)
  | .error status message => (status, [("error", message)])
  | .duplicate eventID => (200, [("status", "duplicate"), ("event_id", eventID)])
  | .accepted result => (200, [("status", "accepted"), ("event_id", result.eventID),
      ("provider", result.provider),
      ("message", "Webhook stored. Entitlements update only after a real PSP event is verified.")])

def paymentWebhook (r : Request) (s : StubPayments) : Answer × StubPayments :=
  match r.body with
  | none => (.error 400 "Unable to read body", s)
  | some body =>
    match handleWebhook cm hmac r.environ r.eventID (trimSpace r.signatureHeader) body s with
    | (.ok result, s) => (.accepted result, s)
    | (.error .duplicateEvent, s) => (.duplicate r.eventID, s)
    | (.error .paymentNotLive, s) => (.error 501 (PaymentError.text .paymentNotLive), s)
    | (.error .badSignature, s) => (.error 401 (PaymentError.text .badSignature), s)
    | (.error .eventIDRequired, s) => (.error 400 (PaymentError.text .eventIDRequired), s)

/-- The answers to a sequence of requests. -/
def run (s : StubPayments) : List Request → List (Request × Answer)
  | [] => []
  | r :: rs =>
    let (a, s) := paymentWebhook cm hmac r s
    (r, a) :: run s rs

end RivicQ.Platform.Payments
