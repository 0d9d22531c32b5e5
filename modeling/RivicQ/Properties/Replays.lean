import Mathlib.Data.List.Perm.Subperm
import RivicQ.Shared.Webhooks

namespace RivicQ.Properties.Signatures

open RivicQ.Lib.GoStrings RivicQ.Lib.Base64 RivicQ.Shared.Webhooks

/-- The header that GitHub sends with a payload. -/
def genuine (hmac : Hmac) (secret : String) (payload : Bytes) : String :=
  "sha256=" ++ hexString (hmac secret payload)

/-- The digest of a payload under a secret has its 32 bytes. -/
def Sized (hmac : Hmac) : Prop := ∀ secret payload, (hmac secret payload).length = 32

variable {hmac : Hmac} {secret header s : String} {payload : Bytes}

/-- What the code accepts: base64 text of the digest. -/
theorem verify_iff (hsecret : secret ≠ "") :
    verifyGitHubSignature hmac secret payload header = .ok () ↔
      ∃ s, header = "sha256=" ++ s ∧ decodeString s = some (hmac secret payload) := by
  unfold verifyGitHubSignature
  rw [if_neg hsecret]
  constructor
  · intro h
    split_ifs at h with hempty hfront
    obtain ⟨s, rfl⟩ := exists_append (by simpa using hfront)
    rw [trimPrefix_append] at h
    refine ⟨s, rfl, ?_⟩
    cases hdecode : decodeString s with
    | none =>
      rw [hdecode] at h
      cases h
    | some provided =>
      rw [hdecode] at h
      dsimp only at h
      split_ifs at h with heq
      rw [not_not.mp heq]
  · rintro ⟨s, rfl, hdecode⟩
    have hne : "sha256=" ++ s ≠ "" := fun he =>
      absurd (congrArg String.toList he) (by simp [String.toList_append])
    rw [if_neg hne, hasPrefix_append, trimPrefix_append, hdecode]
    simp

/-- The code and the scheme agree on a header exactly if it is neither the genuine one nor
base64 text of the digest: the one is refused, the other accepted. -/
theorem signature_exact (hsized : Sized hmac) (hsecret : secret ≠ "") :
    (verifyGitHubSignature hmac secret payload header = .ok () ↔
      header = genuine hmac secret payload) ↔
    header ≠ genuine hmac secret payload ∧
      ∀ s, header = "sha256=" ++ s → decodeString s ≠ some (hmac secret payload) := by
  have hrefused : verifyGitHubSignature hmac secret payload (genuine hmac secret payload) ≠
      .ok () := by
    rw [ne_eq, verify_iff hsecret]
    rintro ⟨s, heq, hdecode⟩
    obtain rfl : hexString (hmac secret payload) = s := by simpa [genuine] using heq
    refine decodeString_hexString (fun hnil => ?_) hdecode
    exact absurd (hsized secret payload) (by simp [hnil])
  constructor
  · intro h
    have hne : header ≠ genuine hmac secret payload := fun heq => hrefused (heq ▸ h.mpr heq)
    exact ⟨hne, fun s heq hdecode => hne (h.mp ((verify_iff hsecret).mpr ⟨s, heq, hdecode⟩))⟩
  · rintro ⟨hne, hdecodes⟩
    refine iff_of_false (fun h => ?_) hne
    obtain ⟨s, heq, hdecode⟩ := (verify_iff hsecret).mp h
    exact hdecodes s heq hdecode

def sampleSecret : String := "It's a Secret to Everybody"

def samplePayload : Bytes := [72, 101, 108, 108, 111, 44, 32, 87, 111, 114, 108, 100, 33]

def sampleDigest : Bytes :=
  [117, 113, 7, 234, 14, 178, 80, 159, 194, 17, 34, 28, 206, 152, 75, 138, 55, 87, 11, 109, 117,
    134, 194, 44, 70, 244, 55, 156, 139, 4, 62, 23]

/-- HMAC-SHA256 on the sample. -/
def sampleHmac : Hmac := fun secret payload =>
  if secret = sampleSecret ∧ payload = samplePayload then sampleDigest else List.replicate 32 0

theorem sized_sample : Sized sampleHmac := by
  intro secret payload
  unfold sampleHmac
  split_ifs <;> rfl

/-- On a header of another scheme the code and GitHub agree: it is refused. -/
theorem signature_exact_sha1 : Sized sampleHmac ∧ sampleSecret ≠ "" ∧
    ((verifyGitHubSignature sampleHmac sampleSecret samplePayload "sha1=00" = .ok () ↔
      "sha1=00" = genuine sampleHmac sampleSecret samplePayload) ↔
    "sha1=00" ≠ genuine sampleHmac sampleSecret samplePayload ∧
      ∀ s, "sha1=00" = "sha256=" ++ s →
        decodeString s ≠ some (sampleHmac sampleSecret samplePayload)) :=
  ⟨sized_sample, by decide, signature_exact sized_sample (by decide)⟩

/-- The delivery of GitHub's own example is refused. -/
theorem genuine_refused : ¬ ∀ (hmac : Hmac) (secret : String) (payload : Bytes) (header : String),
    Sized hmac → secret ≠ "" →
      (verifyGitHubSignature hmac secret payload header = .ok () ↔
        header = genuine hmac secret payload) := by
  intro h
  have haccepted := (h sampleHmac sampleSecret samplePayload
    "sha256=757107ea0eb2509fc211221cce984b8a37570b6d7586c22c46f4379c8b043e17" sized_sample
    (by decide)).mpr (by decide)
  have hrefused : verifyGitHubSignature sampleHmac sampleSecret samplePayload
      "sha256=757107ea0eb2509fc211221cce984b8a37570b6d7586c22c46f4379c8b043e17" =
      .error "signature mismatch" := by decide
  exact absurd (hrefused.symm.trans haccepted) (by simp)

end RivicQ.Properties.Signatures

namespace RivicQ.Properties.Replays

open RivicQ.Lib.GoStrings RivicQ.Lib.Tables RivicQ.Shared.DeliveryCache RivicQ.Shared.Webhooks

variable (hmac : Hmac) (unmarshal : Bytes → Option (String → Option Json)) (cfg : Settings)

/-- The request carries a payload with a signature that the handler accepts for it. -/
def Signed (r : Delivery) (payload : Bytes) : Prop :=
  r.body = some payload ∧ verifyGitHubSignature hmac cfg.secret payload r.signature = .ok ()

/-- The requests are all made in the replay window. -/
def Within (es : List Event) : Prop :=
  ∀ r now r' now', .deliver r now ∈ es → .deliver r' now' ∈ es →
    now - now' ≤ window cfg.webhookReplayTTL githubDeliveries

/-- The signed requests carry ids, the same ones for the same payload, and no more of them
than the cache has room for. -/
structure Orderly (es : List Event) : Prop where
  named : ∀ r now payload, .deliver r now ∈ es → Signed hmac cfg r payload → r.id ≠ ""
  same : ∀ r now r' now' payload, .deliver r now ∈ es → .deliver r' now' ∈ es →
    Signed hmac cfg r payload → Signed hmac cfg r' payload → r.id = r'.id
  few : ∃ ids : List String, ids.length ≤ githubDeliveries.max ∧
    ∀ r now payload, .deliver r now ∈ es → Signed hmac cfg r payload → r.id ∈ ids

/-- A scan was started for the payload. -/
def starts (payload : Bytes) (x : Delivery × Answer) : Bool :=
  x.1.body = some payload && match x.2 with
    | .accepted _ _ => true
    | _ => false

variable {hmac unmarshal cfg} {r : Delivery} {now : Time} {payload payload' : Bytes}
  {cache cache' : DeliveryCache} {a : Answer} {st : Server} {es : List Event}

/-- What screening a request comes to: an answer that leaves the cache alone, or what the
cache says of the id of a signed request. -/
theorem screen_cases (P : Except Answer Bytes × DeliveryCache → Prop)
    (hrefused : ∀ a, (∀ event id, a ≠ .accepted event id) → P (.error a, cache))
    (hsigned : ∀ payload, Signed hmac cfg r payload →
      P (if (rememberFor r.id cfg.webhookReplayTTL now cache).1 then .ok payload
          else .error .duplicateDelivery,
        (rememberFor r.id cfg.webhookReplayTTL now cache).2)) :
    P (screen hmac cfg now r cache) := by
  unfold screen
  by_cases hsecret : cfg.secret = ""
  · rw [if_pos hsecret]
    exact hrefused _ (by simp)
  rw [if_neg hsecret]
  cases hbody : r.body with
  | none => exact hrefused _ (by simp)
  | some payload =>
    dsimp only
    by_cases hlarge : cfg.maxWebhookBodyBytes < payload.length
    · rw [if_pos hlarge]
      exact hrefused _ (by simp)
    rw [if_neg hlarge]
    cases hverify : verifyGitHubSignature hmac cfg.secret payload r.signature with
    | error e => exact hrefused _ (by simp)
    | ok _ =>
      have h := hsigned payload ⟨hbody, hverify⟩
      cases hnew : (rememberFor r.id cfg.webhookReplayTTL now cache).1 <;>
        simpa [hnew] using h

/-- The cache records ids and readings that are to be expected, and has room for all of them. -/
structure Expects (ids : List String) (times : Set Time) (cache : DeliveryCache) : Prop where
  ttl : cache.ttl = githubDeliveries.ttl
  room : ids.length ≤ cache.max
  id : ∀ k entry, cache.seen.lookup k = some entry → k ∈ ids
  time : ∀ k entry, cache.seen.lookup k = some entry → entry.seenAt ∈ times

def Knows (id : String) (cache : DeliveryCache) : Prop := (cache.seen.lookup id).isSome

variable {ids : List String} {times : Set Time} {ttl : Duration} {id : String}

/-- An expected id that is not recorded yet has room. -/
theorem room_of_new (hc : Expects ids times cache) (hmem : id ∈ ids) (hnew : ¬ Knows id cache) :
    cache.seen.keys.length < cache.max := by
  have hkeys : ∀ k ∈ cache.seen.keys, k ∈ ids := by
    intro k hk
    obtain ⟨entry, h⟩ := Option.isSome_iff_exists.mp (AList.lookup_isSome.mpr hk)
    exact hc.id k entry h
  have hid : id ∉ cache.seen.keys := fun hk => hnew (AList.lookup_isSome.mpr hk)
  have hnodup : (id :: cache.seen.keys).Nodup := List.nodup_cons.mpr ⟨hid, cache.seen.keys_nodup⟩
  have hsub := List.Nodup.subperm hnodup (List.cons_subset.mpr ⟨hmem, hkeys⟩)
  exact Nat.lt_of_lt_of_le (Nat.lt_of_succ_le hsub.length_le) hc.room

/-- While there is room for them, an id that is remembered stays. -/
theorem expects_remember (hc : Expects ids times cache)
    (hwindow : ∀ t ∈ times, now - t ≤ window ttl githubDeliveries) (hnow : now ∈ times)
    (hmem : id ∈ ids) (hid : id ≠ "") :
    Expects ids times (rememberFor id ttl now cache).2 ∧
    (∀ k, Knows k cache → Knows k (rememberFor id ttl now cache).2) ∧
    ((rememberFor id ttl now cache).1 = true → ¬ Knows id cache) ∧
    Knows id (rememberFor id ttl now cache).2 := by
  have hwin : window ttl cache = window ttl githubDeliveries := by
    rw [window, window, hc.ttl]
  have hfresh : ∀ k entry, cache.seen.lookup k = some entry →
      fresh (window ttl cache) now entry = true := by
    intro k entry h
    rw [hwin]
    exact decide_eq_true (hwindow _ (hc.time k entry h))
  have hknows : Knows id cache ↔ Holds (window ttl cache) now id cache := by
    rw [Knows, Option.isSome_iff_exists]
    exact exists_congr fun entry => (and_iff_left_of_imp fun h =>
      of_decide_eq_true (hfresh id entry h)).symm
  rw [rememberFor_eq]
  cases hnew : (rememberWithin (window ttl cache) id now cache).1 with
  | false =>
    rw [rememberWithin_keep hid hnew hfresh]
    refine ⟨hc, fun _ hk => hk, nofun, hknows.mpr ?_⟩
    by_contra hheld
    exact absurd (rememberWithin_new.mpr (.inr hheld)) (by simp [hnew])
  | true =>
    have hunknown : ¬ Knows id cache :=
      mt hknows.mp ((rememberWithin_new.mp hnew).resolve_left hid)
    rw [rememberWithin_insert hid hnew hfresh (room_of_new hc hmem hunknown)]
    refine ⟨⟨hc.ttl, hc.room, ?_, ?_⟩, ?_, fun _ => hunknown, ?_⟩
    · intro k entry h
      rw [lookup_insert_if] at h
      split_ifs at h with hk
      · exact hk ▸ hmem
      · exact hc.id k entry h
    · intro k entry h
      rw [lookup_insert_if] at h
      split_ifs at h with hk
      · cases h
        exact hnow
      · exact hc.time k entry h
    · intro k hk
      rw [Knows, lookup_insert_if]
      split_ifs
      · rfl
      · exact hk
    · rw [Knows, lookup_insert_if, if_pos rfl]
      rfl

/-- The payload is on its way to a slot. -/
def pending (payload : Bytes) (st : Server) : Nat :=
  st.waiting.countP fun x => x.1.body = some payload

/-- A payload that was started or is on its way has its id recorded. -/
structure Settled (ids : List String) (times : Set Time) (payload : Bytes) (id : String) (n : Nat)
    (st : Server) : Prop where
  expects : Expects ids times st.cache
  once : n + pending payload st ≤ 1
  known : n + pending payload st = 1 → Knows id st.cache

/-- What the requests of a run must be for one payload. -/
def Allowed (hmac : Hmac) (cfg : Settings) (ids : List String) (times : Set Time)
    (payload : Bytes) (id : String) : Event → Prop
  | .deliver r now => now ∈ times ∧ ∀ payload', Signed hmac cfg r payload' →
      r.id ∈ ids ∧ r.id ≠ "" ∧ (payload' = payload → r.id = id)
  | _ => True

def started (payload : Bytes) (answers : List (Delivery × Answer)) : Nat :=
  answers.countP (starts payload)

theorem starts_of_ne {x : Delivery × Answer} (h : ∀ event id, x.2 ≠ .accepted event id) :
    starts payload x = false := by
  obtain ⟨r, a⟩ := x
  unfold starts
  cases a with
  | accepted event id => exact absurd rfl (h event id)
  | _ => exact Bool.and_false _

theorem settled_refused {n : Nat} (hst : Settled ids times payload id n st)
    (ha : ∀ event id, a ≠ .accepted event id) (hexpects : Expects ids times cache)
    (hkeep : ∀ k, Knows k st.cache → Knows k cache) :
    Settled ids times payload id (n + started payload [(r, a)]) { st with cache } := by
  have hnone : started payload [(r, a)] = 0 := by
    simp [started, starts_of_ne (x := (r, a)) ha]
  rw [hnone, Nat.add_zero]
  exact ⟨hexpects, hst.once, fun h => hkeep id (hst.known h)⟩

theorem pending_concat : pending payload { st with cache, waiting := st.waiting ++ [(r, payload')] } =
    pending payload st + if r.body = some payload then 1 else 0 := by
  simp [pending, List.countP_singleton]

theorem settled_deliver {n : Nat} (hst : Settled ids times payload id n st)
    (hwindow : ∀ t ∈ times, ∀ t' ∈ times,
      t - t' ≤ window cfg.webhookReplayTTL githubDeliveries)
    (he : Allowed hmac cfg ids times payload id (.deliver r now)) :
    Settled ids times payload id
      (n + started payload (step hmac unmarshal cfg st (.deliver r now)).1.toList)
      (step hmac unmarshal cfg st (.deliver r now)).2 := by
  obtain ⟨hnow, hsigned⟩ := he
  refine screen_cases (P := fun x => Settled ids times payload id
    (n + started payload (receive r st x).1.toList) (receive r st x).2) ?_ ?_
  · intro a ha
    exact settled_refused hst ha hst.expects fun _ hk => hk
  · intro payload' hbody
    obtain ⟨hmem, hne, hid⟩ := hsigned payload' hbody
    obtain ⟨hexpects, hkeep, hunknown, hknown⟩ :=
      expects_remember hst.expects (hwindow now hnow) hnow hmem hne
    cases hnew : (rememberFor r.id cfg.webhookReplayTTL now st.cache).1 with
    | false => exact settled_refused hst (by simp) hexpects hkeep
    | true =>
      have hpending : pending payload { st with
          cache := (rememberFor r.id cfg.webhookReplayTTL now st.cache).2
          waiting := st.waiting ++ [(r, payload')] } = _ := pending_concat
      change Settled ids times payload id (n + 0)
        { st with cache := _, waiting := st.waiting ++ [(r, payload')] }
      by_cases hpayload : payload' = payload
      · have hnone : n + pending payload st = 0 := by
          have hunknown : ¬ Knows id st.cache := hid hpayload ▸ hunknown hnew
          have honce := hst.once
          have hknown := mt hst.known hunknown
          omega
        rw [if_pos (hbody.1.trans (congrArg some hpayload))] at hpending
        exact ⟨hexpects, by omega, fun _ => hid hpayload ▸ hknown⟩
      · rw [if_neg fun h => hpayload (Option.some.inj (hbody.1.symm.trans h)), Nat.add_zero]
          at hpending
        exact ⟨hexpects, hpending ▸ hst.once, fun h => hkeep id (hst.known (hpending ▸ h))⟩

/-- Only a request with the payload starts a scan of it. -/
theorem started_le : started payload [(r, a)] ≤ if r.body = some payload then 1 else 0 := by
  rw [started, List.countP_singleton, starts]
  by_cases hbody : r.body = some payload
  · rw [if_pos hbody]
    split_ifs <;> omega
  · simp [hbody]

theorem settled_dispatch {n i : Nat} (hst : Settled ids times payload id n st) :
    Settled ids times payload id
      (n + started payload (step hmac unmarshal cfg st (.dispatch i)).1.toList)
      (step hmac unmarshal cfg st (.dispatch i)).2 := by
  cases hwaiting : st.waiting[i]? with
  | none =>
    simp only [step, hwaiting]
    exact hst
  | some x =>
    obtain ⟨r, payload'⟩ := x
    simp only [step, hwaiting, Option.toList_some]
    obtain ⟨hlt, hget⟩ := List.getElem?_eq_some_iff.mp hwaiting
    have hperm := (List.getElem_cons_eraseIdx_perm hlt).countP_eq
      fun x => decide (x.1.body = some payload)
    rw [hget, List.countP_cons] at hperm
    simp only [decide_eq_true_eq] at hperm
    have hstarted : started payload [(r, (dispatch unmarshal r payload' st.running).1)] ≤
        if r.body = some payload then 1 else 0 := started_le
    have hpending : started payload [(r, (dispatch unmarshal r payload' st.running).1)] +
        (st.waiting.eraseIdx i).countP (fun x => decide (x.1.body = some payload)) ≤
        pending payload st := by
      rw [pending]
      omega
    have honce := hst.once
    refine ⟨hst.expects, ?_, fun h => hst.known ?_⟩
    · change n + _ + (st.waiting.eraseIdx i).countP _ ≤ 1
      omega
    · change n + _ + (st.waiting.eraseIdx i).countP _ = 1 at h
      omega

theorem settled_step {n : Nat} {e : Event} (hst : Settled ids times payload id n st)
    (hwindow : ∀ t ∈ times, ∀ t' ∈ times,
      t - t' ≤ window cfg.webhookReplayTTL githubDeliveries)
    (he : Allowed hmac cfg ids times payload id e) :
    Settled ids times payload id
      (n + started payload (step hmac unmarshal cfg st e).1.toList)
      (step hmac unmarshal cfg st e).2 := by
  cases e with
  | deliver r now => exact settled_deliver hst hwindow he
  | dispatch i => exact settled_dispatch hst
  | finish => exact ⟨hst.expects, hst.once, hst.known⟩

theorem started_run {n : Nat} (hst : Settled ids times payload id n st)
    (hwindow : ∀ t ∈ times, ∀ t' ∈ times,
      t - t' ≤ window cfg.webhookReplayTTL githubDeliveries)
    (hes : ∀ e ∈ es, Allowed hmac cfg ids times payload id e) :
    n + started payload (run hmac unmarshal cfg st es).1 ≤ 1 := by
  induction es generalizing n st with
  | nil => exact Nat.le_trans (Nat.le_add_right _ _) hst.once
  | cons e es ih =>
    obtain ⟨he, hes⟩ := List.forall_mem_cons.mp hes
    have hnext : Settled ids times payload id _ (step hmac unmarshal cfg st e).2 :=
      settled_step hst hwindow he
    have hrest := ih hnext hes
    rwa [Nat.add_assoc, started, started, ← List.countP_append] at hrest

/-- What the requests of a run are allowed to be, for the id of one payload. -/
theorem allowed_of_orderly (h : Orderly hmac cfg es) (payload : Bytes) :
    ∃ ids : List String, ids.length ≤ githubDeliveries.max ∧ ∃ id, ∀ e ∈ es,
      Allowed hmac cfg ids { t | ∃ r, Event.deliver r t ∈ es } payload id e := by
  obtain ⟨ids, hlength, hids⟩ := h.few
  have hid : ∃ id, ∀ r now, Event.deliver r now ∈ es → Signed hmac cfg r payload → r.id = id := by
    by_cases hsome : ∃ r now, Event.deliver r now ∈ es ∧ Signed hmac cfg r payload
    · obtain ⟨r, now, hr, hsigned⟩ := hsome
      exact ⟨r.id, fun r' now' hr' hsigned' => h.same r' now' r now payload hr' hr hsigned' hsigned⟩
    · exact ⟨"", fun r now hr hsigned => absurd ⟨r, now, hr, hsigned⟩ hsome⟩
  obtain ⟨id, hid⟩ := hid
  refine ⟨ids, hlength, id, fun e he => ?_⟩
  cases e with
  | deliver r now =>
    exact ⟨⟨r, he⟩, fun payload' hsigned => ⟨hids r now payload' he hsigned,
      h.named r now payload' he hsigned, fun heq => hid r now he (heq ▸ hsigned)⟩⟩
  | dispatch i => trivial
  | finish => trivial

/-- Of requests in the replay window, all signed ones with ids, the same for the same payload
and not too many for the cache, those with one payload start at most one scan. -/
theorem starts_once (hwindow : Within cfg es) (horderly : Orderly hmac cfg es) (payload : Bytes) :
    started payload (run hmac unmarshal cfg {} es).1 ≤ 1 := by
  obtain ⟨ids, hlength, id, hes⟩ := allowed_of_orderly horderly payload
  have hst : Settled ids { t | ∃ r, Event.deliver r t ∈ es } payload id 0 {} :=
    ⟨⟨rfl, hlength, nofun, nofun⟩, Nat.zero_le 1, nofun⟩
  have hstarted : 0 + started payload (run hmac unmarshal cfg {} es).1 ≤ 1 := started_run hst
    (fun t ⟨r, hr⟩ t' ⟨r', hr'⟩ => hwindow r t r' t' hr hr') hes
  rwa [Nat.zero_add] at hstarted

def resentOnce : List Event := [.deliver push 0, .dispatch 0, .deliver push 1, .dispatch 0]

theorem mem_resentOnce {r : Delivery} {now : Time} (h : Event.deliver r now ∈ resentOnce) :
    r = push ∧ (now = 0 ∨ now = 1) := by
  simp only [resentOnce, List.mem_cons, List.not_mem_nil, Event.deliver.injEq, reduceCtorEq,
    false_or, or_false] at h
  obtain ⟨rfl, rfl⟩ | ⟨rfl, rfl⟩ := h
  · exact ⟨rfl, .inl rfl⟩
  · exact ⟨rfl, .inr rfl⟩

theorem within_resentOnce : Within pushSettings resentOnce := by
  intro r now r' now' hr hr'
  obtain ⟨_, rfl | rfl⟩ := mem_resentOnce hr <;> obtain ⟨_, rfl | rfl⟩ := mem_resentOnce hr' <;>
    decide

theorem orderly_resentOnce : Orderly pushHmac pushSettings resentOnce where
  named r now payload hr _ := by
    rw [(mem_resentOnce hr).1]
    decide
  same r now r' now' payload hr hr' _ _ := by
    rw [(mem_resentOnce hr).1, (mem_resentOnce hr').1]
  few := ⟨[push.id], by decide, fun r now payload hr _ => by
    rw [(mem_resentOnce hr).1]
    exact List.mem_singleton_self push.id⟩

/-- A push that is resent as it was captured starts one scan. -/
theorem starts_once_resent : Within pushSettings resentOnce ∧
    Orderly pushHmac pushSettings resentOnce ∧
    ∀ payload, started payload (run pushHmac pushUnmarshal pushSettings {} resentOnce).1 ≤ 1 :=
  ⟨within_resentOnce, orderly_resentOnce, starts_once within_resentOnce orderly_resentOnce⟩

/-- Every request has the body and the signature of a captured one. -/
def Resends (captured : List Delivery) (es : List Event) : Prop :=
  ∀ r now, .deliver r now ∈ es → ∃ c ∈ captured, r.body = c.body ∧ r.signature = c.signature

/-- A captured push that is resent under another delivery id starts another scan. -/
theorem renamed_starts_again : ¬ ∀ (hmac : Hmac) (unmarshal : Bytes → Option (String → Option Json))
    (cfg : Settings) (captured : List Delivery) (es : List Event) (payload : Bytes),
    Resends captured es → Within cfg es → started payload (run hmac unmarshal cfg {} es).1 ≤ 1 := by
  intro h
  have hmem : ∀ r now, Event.deliver r now ∈ ([.deliver push 0, .dispatch 0,
      .deliver { push with id := "1" } 0, .dispatch 0] : List Event) →
      (r = push ∨ r = { push with id := "1" }) ∧ now = 0 := by
    intro r now hr
    simp only [List.mem_cons, List.not_mem_nil, Event.deliver.injEq, reduceCtorEq,
      false_or, or_false] at hr
    obtain ⟨rfl, rfl⟩ | ⟨rfl, rfl⟩ := hr
    · exact ⟨.inl rfl, rfl⟩
    · exact ⟨.inr rfl, rfl⟩
  have hbound := h pushHmac pushUnmarshal pushSettings [push] _ (push.body.getD [])
    (fun r now hr => ⟨push, List.mem_singleton_self push, by
      obtain ⟨rfl | rfl, _⟩ := hmem r now hr <;> exact ⟨rfl, rfl⟩⟩)
    (fun r now r' now' hr hr' => by
      rw [(hmem r now hr).2, (hmem r' now' hr').2]
      decide)
  exact absurd hbound (by decide)

end RivicQ.Properties.Replays

namespace RivicQ.Properties.Redeliveries

open RivicQ.Lib.GoStrings RivicQ.Shared.DeliveryCache RivicQ.Shared.Webhooks
open RivicQ.Properties.Replays

variable (hmac : Hmac) (unmarshal : Bytes → Option (String → Option Json)) (cfg : Settings)

/-- A signed push or pull request, whose payload names a repository. -/
def Genuine (r : Delivery) : Prop :=
  (r.event = "push" ∨ r.event = "pull_request") ∧
    ∃ payload, Signed hmac cfg r payload ∧ payload.length ≤ cfg.maxWebhookBodyBytes ∧
      ∃ name, repository unmarshal payload = .ok name

/-- A run has answered a request without starting a scan. -/
def Unscanned (es : List Event) (r : Delivery) : Prop :=
  ∃ a, (r, a) ∈ (run hmac unmarshal cfg {} es).1 ∧ ∀ event id, a ≠ .accepted event id

variable {hmac unmarshal cfg} {r : Delivery} {now : Time} {st : Server} {es : List Event}

/-- The handler is its two steps, one right after the other. -/
theorem run_handler : run hmac unmarshal cfg st [.deliver r now, .dispatch st.waiting.length] =
    ([(r, (gitHubWebhookHandler hmac unmarshal cfg now r st).1)],
      (gitHubWebhookHandler hmac unmarshal cfg now r st).2) := by
  simp only [run, step, gitHubWebhookHandler]
  cases screen hmac cfg now r st.cache with
  | mk reply cache =>
    cases reply with
    | error a => simp [receive]
    | ok payload => simp [receive, List.eraseIdx_append_of_length_le]

theorem screen_signed {payload : Bytes} {cache : DeliveryCache}
    (hsigned : Signed hmac cfg r payload) (hsize : payload.length ≤ cfg.maxWebhookBodyBytes) :
    screen hmac cfg now r cache =
      (if (rememberFor r.id cfg.webhookReplayTTL now cache).1 then .ok payload
        else .error .duplicateDelivery,
      (rememberFor r.id cfg.webhookReplayTTL now cache).2) := by
  have hsecret : cfg.secret ≠ "" := by
    rintro hempty
    have hverify := hsigned.2
    rw [verifyGitHubSignature, if_pos hempty] at hverify
    cases hverify
  unfold screen
  rw [if_neg hsecret, hsigned.1]
  dsimp only
  rw [if_neg (Nat.not_lt.mpr hsize), hsigned.2]
  cases (rememberFor r.id cfg.webhookReplayTTL now cache).1 <;> rfl

theorem accepted_iff (hgenuine : Genuine hmac unmarshal cfg r)
    (hfree : st.running < webhookScanConcurrency) :
    (gitHubWebhookHandler hmac unmarshal cfg now r st).1 = .accepted r.event r.id ↔
      r.id = "" ∨ ¬ Holds (window cfg.webhookReplayTTL st.cache) now r.id st.cache := by
  obtain ⟨hevent, payload, hsigned, hsize, name, hname⟩ := hgenuine
  rw [← rememberWithin_new, ← rememberFor_eq, gitHubWebhookHandler, screen_signed hsigned hsize]
  have hdispatch : dispatch unmarshal r payload st.running =
      (.accepted r.event r.id, st.running + 1) := by
    have hscans : ¬ (r.event ≠ "push" ∧ r.event ≠ "pull_request") := by tauto
    rw [dispatch, if_neg hscans, hname]
    exact if_pos hfree
  cases (rememberFor r.id cfg.webhookReplayTTL now st.cache).1 with
  | false => simp
  | true => simp [hdispatch]

/-- A genuine delivery that was answered without a scan starts one when it comes again and a
slot is free, exactly if it carries no id or the cache holds its id no longer. -/
theorem redelivery_starts :
    (Genuine hmac unmarshal cfg r → Unscanned hmac unmarshal cfg es r →
      (run hmac unmarshal cfg {} es).2.running < webhookScanConcurrency →
        (run hmac unmarshal cfg (run hmac unmarshal cfg {} es).2 [.deliver r now,
          .dispatch (run hmac unmarshal cfg {} es).2.waiting.length]).1 =
          [(r, .accepted r.event r.id)]) ↔
    (Genuine hmac unmarshal cfg r → Unscanned hmac unmarshal cfg es r →
      (run hmac unmarshal cfg {} es).2.running < webhookScanConcurrency →
        r.id = "" ∨ ¬ Holds
          (window cfg.webhookReplayTTL (run hmac unmarshal cfg {} es).2.cache) now r.id
          (run hmac unmarshal cfg {} es).2.cache) := by
  refine forall_congr' fun hgenuine => forall_congr' fun _ => forall_congr' fun hfree => ?_
  rw [run_handler, ← accepted_iff hgenuine hfree]
  simp

/-- Pushes that take every slot, one more that has to be put off, and a scan that finishes. -/
def saturated : List Event :=
  (["1", "2", "3", "4"].flatMap fun id => [.deliver { push with id } 0, .dispatch 0]) ++
    [.deliver push 0, .dispatch 0, .finish]

theorem genuine_push : Genuine pushHmac pushUnmarshal pushSettings push :=
  ⟨.inl rfl, push.body.getD [], ⟨rfl, by decide⟩, by decide, "acme/widgets", by decide⟩

/-- A push that was put off is refused as a duplicate when it comes again. -/
theorem put_off_refused : ¬ ∀ (hmac : Hmac) (unmarshal : Bytes → Option (String → Option Json))
    (cfg : Settings) (es : List Event) (r : Delivery) (now : Time),
    Genuine hmac unmarshal cfg r → Unscanned hmac unmarshal cfg es r →
      (run hmac unmarshal cfg {} es).2.running < webhookScanConcurrency →
        (run hmac unmarshal cfg (run hmac unmarshal cfg {} es).2 [.deliver r now,
          .dispatch (run hmac unmarshal cfg {} es).2.waiting.length]).1 =
          [(r, .accepted r.event r.id)] := by
  intro h
  have hunscanned : Unscanned pushHmac pushUnmarshal pushSettings saturated push :=
    ⟨.queuedLater "push" push.id, by decide, by simp⟩
  have hstarts := h pushHmac pushUnmarshal pushSettings saturated push 1 genuine_push hunscanned
    (by decide)
  exact absurd hstarts (by decide)

end RivicQ.Properties.Redeliveries
