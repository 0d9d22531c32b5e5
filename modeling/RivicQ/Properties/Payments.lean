import Mathlib.Data.Nat.Find
import RivicQ.Platform.Payments

namespace RivicQ.Properties.Payments

open RivicQ.Lib.GoStrings RivicQ.Platform.Payments
open RivicQ.Shared.Webhooks (Hmac)

variable (cm : CaseMap) (hmac : Hmac) (secret : String)

/-- A request that gets as far as the set of event ids. -/
def Passes (r : Request) : Prop :=
  configured r.environ = true ∧ r.eventID ≠ "" ∧
    ∃ body ∈ r.body, secret ≠ "" → Signed cm hmac secret r.signatureHeader body

/-- The request at a place passes, and is the first with its event id that does. -/
def Opens (rs : List Request) (i : Nat) (r : Request) : Prop :=
  rs[i]? = some r ∧ Passes cm hmac secret r ∧
    ∀ j < i, ∀ q ∈ rs[j]?, Passes cm hmac secret q → q.eventID ≠ r.eventID

/-- No request passes where the adapter was made without a secret, and no two that are the first
with their event ids carry the same body. -/
def Guarded (rs : List Request) : Prop :=
  (secret = "" → ∀ r ∈ rs, ¬ Passes cm hmac secret r) ∧
    ∀ i j r q, Opens cm hmac secret rs i r → Opens cm hmac secret rs j q → r.body = q.body → i = j

/-- What is accepted was signed under a secret. -/
def Authentic (answers : List (Request × Answer)) : Prop :=
  ∀ (i : Nat) r result, answers[i]? = some (r, .accepted result) →
    secret ≠ "" ∧ ∃ body ∈ r.body, Signed cm hmac secret r.signatureHeader body

/-- A body is accepted at one place only. -/
def Once (answers : List (Request × Answer)) : Prop :=
  ∀ (i j : Nat) r q x y, answers[i]? = some (r, .accepted x) → answers[j]? = some (q, .accepted y) →
    r.body = q.body → i = j

variable {cm hmac secret} {s : StubPayments}

theorem trimSpace_eventID (r : Request) : trimSpace r.eventID = r.eventID := by
  unfold Request.eventID
  split <;> exact trimSpace_trimSpace _

theorem signed_trimSpace {signature : String} {body : List UInt8} :
    Signed cm hmac secret (trimSpace signature) body ↔ Signed cm hmac secret signature body := by
  rw [Signed, trimSpace_trimSpace, Signed]

/-- A request that passes is accepted if its event id is new, and the id is kept. -/
theorem paymentWebhook_passes {r : Request} (h : Passes cm hmac s.secret r) :
    paymentWebhook cm hmac r s =
      if r.eventID ∈ s.seen then (.duplicate r.eventID, s)
      else (.accepted { eventID := r.eventID, provider := s.providerName r.environ },
        { s with seen := r.eventID :: s.seen }) := by
  obtain ⟨hlive, hid, body, hbody, hsigned⟩ := h
  have hchecked : ¬ (s.secret ≠ "" ∧ ¬ Signed cm hmac s.secret r.signatureHeader body) :=
    fun h => h.2 (hsigned h.1)
  by_cases hseen : r.eventID ∈ s.seen
  · simp [paymentWebhook, handleWebhook, Option.mem_def.mp hbody, hlive, signed_trimSpace, hchecked,
      trimSpace_eventID, hid, hseen]
  · simp [paymentWebhook, handleWebhook, Option.mem_def.mp hbody, hlive, signed_trimSpace, hchecked,
      trimSpace_eventID, hid, hseen]

/-- Any other request is refused, and changes nothing. -/
theorem paymentWebhook_fails {r : Request} (h : ¬ Passes cm hmac s.secret r) :
    ∃ status message, paymentWebhook cm hmac r s = (.error status message, s) := by
  unfold paymentWebhook handleWebhook
  cases hbody : r.body with
  | none => exact ⟨_, _, rfl⟩
  | some body =>
    simp only [signed_trimSpace, trimSpace_eventID]
    split_ifs with hlive hsigned hid hseen
    · exact ⟨_, _, rfl⟩
    · exact ⟨_, _, rfl⟩
    · exact ⟨_, _, rfl⟩
    all_goals
      refine absurd ⟨by simpa using hlive, hid, body, hbody, fun hsecret => ?_⟩ h
      exact not_not.mp fun h => hsigned ⟨hsecret, h⟩

theorem secret_paymentWebhook (r : Request) :
    (paymentWebhook cm hmac r s).2.secret = s.secret := by
  by_cases h : Passes cm hmac s.secret r
  · rw [paymentWebhook_passes h]
    split <;> rfl
  · obtain ⟨status, message, heq⟩ := paymentWebhook_fails h
    rw [heq]

theorem mem_seen_paymentWebhook (r : Request) (id : String) :
    id ∈ (paymentWebhook cm hmac r s).2.seen ↔
      id ∈ s.seen ∨ Passes cm hmac s.secret r ∧ r.eventID = id := by
  by_cases h : Passes cm hmac s.secret r
  · rw [paymentWebhook_passes h]
    by_cases hseen : r.eventID ∈ s.seen
    · rw [if_pos hseen]
      exact ⟨.inl, fun h => h.elim (fun h => h) fun h => h.2 ▸ hseen⟩
    · rw [if_neg hseen, List.mem_cons, or_comm, eq_comm]
      exact or_congr_right (iff_and_self.mpr fun _ => h)
  · obtain ⟨status, message, heq⟩ := paymentWebhook_fails h
    rw [heq]
    exact ⟨.inl, fun h' => h'.elim (fun h => h) fun h' => absurd h'.1 h⟩

theorem accepted_paymentWebhook (r : Request) :
    (∃ result, (paymentWebhook cm hmac r s).1 = .accepted result) ↔
      Passes cm hmac s.secret r ∧ r.eventID ∉ s.seen := by
  by_cases h : Passes cm hmac s.secret r
  · rw [paymentWebhook_passes h]
    by_cases hseen : r.eventID ∈ s.seen <;> simp [h, hseen]
  · obtain ⟨status, message, heq⟩ := paymentWebhook_fails h
    simp [heq, h]

/-- The accepted requests of a run are those that pass with an event id that was not there before
the run and is not that of an earlier request that passes. -/
theorem accepted_run (rs : List Request) (s : StubPayments) (i : Nat) (r : Request) :
    (∃ result, (run cm hmac s rs)[i]? = some (r, .accepted result)) ↔
      Opens cm hmac s.secret rs i r ∧ r.eventID ∉ s.seen := by
  induction rs generalizing s i with
  | nil => simp [run, Opens]
  | cons q rs ih =>
    cases i with
    | zero =>
      have haccepted := @accepted_paymentWebhook cm hmac s q
      constructor
      · rintro ⟨result, heq⟩
        obtain ⟨rfl, hresult⟩ : q = r ∧ (paymentWebhook cm hmac q s).1 = .accepted result := by
          simpa [run] using heq
        obtain ⟨hpasses, hnew⟩ := haccepted.mp ⟨result, hresult⟩
        exact ⟨⟨rfl, hpasses, fun j hj => nomatch hj⟩, hnew⟩
      · rintro ⟨⟨heq, hpasses, -⟩, hnew⟩
        obtain rfl : q = r := by simpa using heq
        obtain ⟨result, hresult⟩ := haccepted.mpr ⟨hpasses, hnew⟩
        exact ⟨result, by simp [run, hresult]⟩
    | succ i =>
      have htail := ih (paymentWebhook cm hmac q s).2 i
      rw [mem_seen_paymentWebhook, Opens, secret_paymentWebhook] at htail
      simp only [run, List.getElem?_cons_succ, htail, Opens, Nat.forall_lt_succ_left,
        List.getElem?_cons_zero, Option.mem_some_iff, forall_eq', not_or, not_and]
      constructor
      · rintro ⟨⟨hr, hpasses, hearlier⟩, hold, hnew⟩
        exact ⟨⟨hr, hpasses, hnew, hearlier⟩, hold⟩
      · rintro ⟨⟨hr, hpasses, hnew, hearlier⟩, hold⟩
        exact ⟨⟨hr, hpasses, hearlier⟩, hold, hnew⟩

/-- Where a request passes, there is a first one. -/
theorem exists_opens {rs : List Request} {r : Request} (hr : r ∈ rs)
    (hpasses : Passes cm hmac secret r) : ∃ i q, Opens cm hmac secret rs i q := by
  classical
  have hsome : ∃ i : Nat, ∃ q ∈ rs[i]?, Passes cm hmac secret q := by
    obtain ⟨i, hi⟩ := List.mem_iff_getElem?.mp hr
    exact ⟨i, r, hi, hpasses⟩
  obtain ⟨q, hq, hqpasses⟩ := Nat.find_spec hsome
  exact ⟨Nat.find hsome, q, hq, hqpasses, fun j hj p hp hppasses =>
    absurd ⟨p, hp, hppasses⟩ (Nat.find_min hsome hj)⟩

variable (cm hmac) in
theorem accepted_run_new (environ : Environ) (rs : List Request) (i : Nat) (r : Request) :
    (∃ result, (run cm hmac (newStubPayments environ) rs)[i]? = some (r, .accepted result)) ↔
      Opens cm hmac (newStubPayments environ).secret rs i r :=
  (accepted_run rs (newStubPayments environ) i r).trans (and_iff_left (List.not_mem_nil))

/-- The payments accepted are signed under a secret, and each body once, in exactly the runs where
no request passes an adapter without a secret and no body comes under two new event ids. -/
theorem payments_accepted (cm : CaseMap) (hmac : Hmac) (environ : Environ) (rs : List Request) :
    (Authentic cm hmac (newStubPayments environ).secret (run cm hmac (newStubPayments environ) rs) ∧
      Once (run cm hmac (newStubPayments environ) rs)) ↔
      Guarded cm hmac (newStubPayments environ).secret rs := by
  have hopens := accepted_run_new cm hmac environ rs
  constructor
  · rintro ⟨hauthentic, honce⟩
    constructor
    · intro hsecret r hr hpasses
      obtain ⟨i, q, hq⟩ := exists_opens hr hpasses
      obtain ⟨result, hresult⟩ := (hopens i q).mpr hq
      exact (hauthentic i q result hresult).1 hsecret
    · intro i j r q hr hq hbody
      obtain ⟨x, hx⟩ := (hopens i r).mpr hr
      obtain ⟨y, hy⟩ := (hopens j q).mpr hq
      exact honce i j r q x y hx hy hbody
  · rintro ⟨hsecret, hbodies⟩
    constructor
    · intro i r result hresult
      obtain ⟨hr, hpasses, -⟩ := (hopens i r).mp ⟨result, hresult⟩
      have hne : (newStubPayments environ).secret ≠ "" := fun h =>
        hsecret h r (List.mem_of_getElem? hr) hpasses
      obtain ⟨-, -, body, hbody, hsigned⟩ := hpasses
      exact ⟨hne, body, hbody, hsigned hne⟩
    · intro i j r q x y hx hy
      exact hbodies i j r q ((hopens i r).mp ⟨x, hx⟩) ((hopens j q).mp ⟨y, hy⟩)

/-- A process that is given a key for the provider and no secret for its events. -/
def stripeOnly : Environ := fun name => if name = "STRIPE_SECRET_KEY" then "sk_live_1" else ""

def unsigned : Request where
  environ := stripeOnly
  eventHeader := "evt_1"
  eventQuery := ""
  signatureHeader := ""
  body := some [123, 125]

theorem unsigned_accepted : ¬ ∀ (cm : CaseMap) (hmac : Hmac) (environ : Environ)
    (rs : List Request),
    Authentic cm hmac (newStubPayments environ).secret (run cm hmac (newStubPayments environ) rs) ∧
      Once (run cm hmac (newStubPayments environ) rs) := by
  intro h
  obtain ⟨hauthentic, -⟩ := h asciiCase (fun _ _ => List.replicate 32 0) stripeOnly [unsigned]
  have hresult : (run asciiCase (fun _ _ => List.replicate 32 0) (newStubPayments stripeOnly)
      [unsigned])[0]? = some (unsigned, .accepted ⟨"evt_1", "configured_stub"⟩) := by
    refine congrArg some (Prod.ext rfl ?_)
    decide
  exact (hauthentic 0 unsigned _ hresult).1 (by decide)

end RivicQ.Properties.Payments
