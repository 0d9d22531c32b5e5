import Mathlib
import RivicQ.Lib.Stretches
import RivicQ.Middleware.RateLimit

namespace RivicQ.Properties.RateLimits

open RivicQ.Lib.Tables RivicQ.Lib.Projections RivicQ.Lib.Streaks RivicQ.Middleware.RateLimit

/-- The later request finds that the earlier one is not long ago. -/
def Near (window : Duration) (earlier now : Time) : Prop := ¬ sub now earlier > window

instance (window : Duration) : DecidableRel (Near window) :=
  fun _ _ => inferInstanceAs (Decidable (¬ _))

variable {window : Duration} {rl full : RateLimiter} {ip : String} {now : Time}
  {events : List Event}

theorem near_iff {window u t : Int} :
    Near window u t ↔ max (-2 ^ 63 : Int) (min (2 ^ 63 - 1) (t - u)) ≤ window := Int.not_lt

theorem near_inner (a b c : Time) (hab : a ≤ b) (hbc : b ≤ c) (h : Near window a c) :
    Near window a b ∧ Near window b c := by
  have inner : ∀ window a b c : Int, a ≤ b → b ≤ c → Near window a c →
      Near window a b ∧ Near window b c := by
    intro window a b c hab hbc h
    rw [near_iff] at h
    rw [near_iff, near_iff]
    omega
  exact inner window a b c hab hbc h

theorem near_of_within {window a b u t : Int} (hspan : b - a ≤ window) (hu : a ≤ u ∧ u ≤ b)
    (ht : a ≤ t ∧ t ≤ b) : Near window u t := by
  rw [near_iff]
  omega

theorem not_near_later {window u now later : Int} (hle : now ≤ later) (h : ¬ Near window u now) :
    ¬ Near window u later := by
  rw [near_iff] at h ⊢
  omega

section Steps

/-- The last request of an address that is remembered, and its count. -/
def last (rl : RateLimiter) (ip : String) : Option (Time × Nat) :=
  (rl.visitors.lookup ip).map fun v => (v.lastSeen, v.count)

/-- The count of a request. -/
def number (rl : RateLimiter) (ip : String) (now : Time) : Nat :=
  next (Near rl.window) (last rl ip) now

def counted (rl : RateLimiter) (ip : String) (now : Time) : RateLimiter :=
  { rl with visitors := rl.visitors.insert ip ⟨number rl ip now, now⟩ }

theorem allow_eq (hlimit : 1 ≤ rl.limit) : rl.allow ip now =
    (decide ((number rl ip now : Int) ≤ rl.limit), counted rl ip now) := by
  have hone : decide (((1 : Nat) : Int) ≤ rl.limit) = true := decide_eq_true hlimit
  unfold RateLimiter.allow counted
  generalize hn : number rl ip now = n
  unfold number last at hn
  cases hlookup : rl.visitors.lookup ip with
  | none =>
    rw [hlookup] at hn
    obtain rfl : 1 = n := hn
    rw [hone]
  | some v =>
    rw [hlookup, Option.map_some] at hn
    dsimp only
    by_cases h : sub now v.lastSeen > rl.window
    · rw [next_apart (not_not.mpr h)] at hn
      rw [if_pos h, ← hn, hone]
    · rw [next_near h] at hn
      rw [if_neg h, hn]

theorem last_counted (rl : RateLimiter) (ip ip' : String) (now : Time) :
    last (counted rl ip now) ip' = if ip' = ip then some (now, number rl ip now) else last rl ip' := by
  unfold last counted
  rw [lookup_insert_if]
  split_ifs <;> rfl

theorem last_cleanup (rl : RateLimiter) (ip : String) (now : Time) :
    last (rl.cleanup now) ip = (last rl ip).filter fun p => decide (Near rl.window p.1 now) := by
  unfold last RateLimiter.cleanup Near
  rw [lookup_retain]
  cases rl.visitors.lookup ip with
  | none => rfl
  | some v =>
    rw [Option.map_some, Option.filter_some, Option.filter_some]
    by_cases h : sub now v.lastSeen > rl.window
    · simp [h]
    · simp [h]

theorem answers_request (hlimit : 1 ≤ rl.limit) : answers rl (.request ip now :: events) =
    ⟨ip, now, decide ((number rl ip now : Int) ≤ rl.limit)⟩ ::
      answers (counted rl ip now) events := by
  simp [answers, trace, step, allow_eq hlimit]

theorem answers_cleanup : answers rl (.cleanup now :: events) = answers (rl.cleanup now) events := rfl

end Steps

section Cleanup

/-- A limiter remembers what another one does, but for what is long ago at some time. -/
structure Forgets (now : Time) (rl full : RateLimiter) : Prop where
  limit : rl.limit = full.limit
  window : rl.window = full.window
  last : ∀ ip, last rl ip = last full ip ∨
    last rl ip = none ∧ ∃ p ∈ last full ip, ¬ Near full.window p.1 now

theorem forgets_refl (now : Time) (rl : RateLimiter) : Forgets now rl rl :=
  ⟨rfl, rfl, fun _ => .inl rfl⟩

theorem Forgets.later {later : Time} (h : Forgets now rl full) (hle : now ≤ later) :
    Forgets later rl full := by
  refine ⟨h.limit, h.window, fun ip => ?_⟩
  obtain hsame | ⟨hnone, p, hp, hlong⟩ := h.last ip
  · exact .inl hsame
  · exact .inr ⟨hnone, p, hp, not_near_later hle hlong⟩

theorem Forgets.number (h : Forgets now rl full) (ip : String) :
    number rl ip now = number full ip now := by
  unfold RateLimits.number
  rw [h.window]
  obtain hsame | ⟨hnone, p, hp, hlong⟩ := h.last ip
  · rw [hsame]
  · obtain hp : RateLimits.last full ip = some p := hp
    rw [hnone, hp, next_apart hlong]
    rfl

theorem Forgets.counted (h : Forgets now rl full) (ip : String) :
    Forgets now (counted rl ip now) (counted full ip now) := by
  refine ⟨h.limit, h.window, fun ip' => ?_⟩
  rw [last_counted, last_counted, h.number ip]
  split_ifs
  · exact .inl rfl
  · exact h.last ip'

theorem Forgets.cleanup (h : Forgets now rl full) : Forgets now (rl.cleanup now) full := by
  refine ⟨h.limit, h.window, fun ip => ?_⟩
  rw [last_cleanup, h.window]
  obtain hsame | ⟨hnone, hlong⟩ := h.last ip
  · rw [hsame]
    cases hlast : RateLimits.last full ip with
    | none => exact .inl rfl
    | some p =>
      by_cases hnear : Near full.window p.1 now
      · exact .inl (Option.filter_some_pos (decide_eq_true hnear))
      · exact .inr ⟨Option.filter_some_neg (by simpa using hnear), p, rfl, hnear⟩
  · rw [hnone]
    exact .inr ⟨rfl, hlong⟩

/-- The answers are those that would be given if nothing were cleaned up. -/
theorem answers_forgets (hlimit : 1 ≤ full.limit) (hforgets : Forgets now rl full)
    (hsorted : (now :: events.map Event.time).Pairwise (· ≤ ·)) :
    answers rl events = answers full (events.filter Event.isRequest) := by
  induction events generalizing now rl full with
  | nil => rfl
  | cons e events ih =>
    rw [List.map_cons] at hsorted
    obtain ⟨hfirst, hrest⟩ := List.pairwise_cons.mp hsorted
    have hlater := hforgets.later (hfirst e.time List.mem_cons_self)
    cases e with
    | request ip t =>
      change Forgets t rl full at hlater
      rw [List.filter_cons_of_pos rfl, answers_request hlimit,
        answers_request (hlater.limit ▸ hlimit), hlater.number, hlater.limit]
      exact congrArg _ (ih hlimit (hlater.counted ip) hrest)
    | cleanup t =>
      rw [List.filter_cons_of_neg Bool.false_ne_true, answers_cleanup]
      exact ih hlimit hlater.cleanup hrest

end Cleanup

section Addresses

theorem times_request (ip ip' : String) (now : Time) (events : List Event) :
    times ip (.request ip' now :: events) =
      if ip' = ip then now :: times ip events else times ip events := by
  by_cases h : ip' = ip
  · rw [if_pos h]
    exact List.filterMap_cons_some (if_pos h)
  · rw [if_neg h]
    exact List.filterMap_cons_none (if_neg h)

theorem times_filter (ip : String) (events : List Event) :
    times ip (events.filter Event.isRequest) = times ip events := by
  induction events with
  | nil => rfl
  | cons e events ih =>
    cases e with
    | request ip' t => rw [List.filter_cons_of_pos rfl, times_request, times_request, ih]
    | cleanup t =>
      rw [List.filter_cons_of_neg Bool.false_ne_true, ih]
      rfl

theorem times_sublist (ip : String) (events : List Event) :
    (times ip events).Sublist (events.map Event.time) := by
  induction events with
  | nil => exact List.Sublist.slnil
  | cons e events ih =>
    cases e with
    | request ip' t =>
      rw [times_request]
      split_ifs
      · exact ih.cons_cons t
      · exact ih.cons t
    | cleanup t => exact ih.cons t

def numberedAnswer (ip : String) (limit : Int) (p : Time × Nat) : Answer :=
  ⟨ip, p.1, decide ((p.2 : Int) ≤ limit)⟩

/-- The answers to an address depend on its own requests only. -/
theorem answers_address (rl : RateLimiter) (hlimit : 1 ≤ rl.limit) (ip : String)
    (hrequests : ∀ e ∈ events, e.isRequest) :
    (answers rl events).filter (fun r => r.ip = ip) =
      (numbered (Near rl.window) (last rl ip) (times ip events)).map
        (numberedAnswer ip rl.limit) := by
  induction events generalizing rl with
  | nil => rfl
  | cons e events ih =>
    obtain ⟨he, hrest⟩ := List.forall_mem_cons.mp hrequests
    cases e with
    | cleanup t => cases he
    | request ip' t =>
      have hnext := ih (counted rl ip' t) hlimit hrest
      rw [last_counted] at hnext
      rw [answers_request hlimit, times_request]
      by_cases hip : ip' = ip
      · subst hip
        rw [if_pos rfl] at hnext
        rw [if_pos rfl, List.filter_cons_of_pos (by simp), hnext]
        rfl
      · rw [if_neg (Ne.symm hip)] at hnext
        rw [if_neg hip, List.filter_cons_of_neg (by simpa using hip), hnext]
        rfl

end Addresses

theorem answers_cleaned (limit : Int) (hlimit : 1 ≤ limit) (window : Duration)
    (hsorted : (events.map Event.time).Pairwise (· ≤ ·)) :
    answers (newRateLimiter limit window) events =
      answers (newRateLimiter limit window) (events.filter Event.isRequest) := by
  cases events with
  | nil => rfl
  | cons e events =>
    rw [List.map_cons] at hsorted
    refine answers_forgets hlimit (forgets_refl e.time _) ?_
    refine List.pairwise_cons.mpr ⟨fun t ht => ?_, hsorted⟩
    obtain rfl | ht := List.mem_cons.mp ht
    · exact Int.le_refl _
    · exact (List.pairwise_cons.mp hsorted).1 t ht

/-- The numbers that decide on the requests of an address. -/
theorem answers_numbered (limit : Int) (hlimit : 1 ≤ limit) (window : Duration)
    (hsorted : (events.map Event.time).Pairwise (· ≤ ·)) (ip : String) :
    (answers (newRateLimiter limit window) events).filter (fun r => r.ip = ip) =
      (numbered (Near window) none (times ip events)).map (numberedAnswer ip limit) := by
  rw [answers_cleaned limit hlimit window hsorted, answers_address (newRateLimiter limit window)
    hlimit ip, times_filter]
  · rfl
  · exact fun e he => (List.mem_filter.mp he).2

section Bound

/-- The answers to an address that let it pass in a span of time. -/
def passed (ip : String) (a b : Time) (rs : List Answer) : List Answer :=
  rs.filter fun r => r.ip = ip ∧ a ≤ r.now ∧ r.now ≤ b ∧ r.allowed

/-- In no window more requests of an address pass than the limit, and the cleanup changes no
answer. -/
theorem passed_within_limit (limit : Int) (hlimit : 1 ≤ limit) (window : Duration)
    (events : List Event) (hsorted : (events.map Event.time).Pairwise (· ≤ ·)) :
    (∀ (ip : String) (a b : Time), b - a ≤ window →
      ((passed ip a b (answers (newRateLimiter limit window) events)).length : Int) ≤ limit) ∧
    answers (newRateLimiter limit window) events =
      answers (newRateLimiter limit window) (events.filter Event.isRequest) := by
  refine ⟨fun ip a b hspan => ?_, answers_cleaned limit hlimit window hsorted⟩
  have hwithin : passed ip a b (answers (newRateLimiter limit window) events) =
      ((numbered (Near window) none (times ip events)).filter fun p =>
        decide (a ≤ p.1 ∧ p.1 ≤ b) && decide (p.2 ≤ limit.toNat)).map (numberedAnswer ip limit) := by
    have hsplit : passed ip a b (answers (newRateLimiter limit window) events) =
        ((answers (newRateLimiter limit window) events).filter fun r => r.ip = ip).filter
          fun r => a ≤ r.now ∧ r.now ≤ b ∧ r.allowed := by
      rw [List.filter_filter]
      refine List.filter_congr fun r _ => ?_
      rw [Bool.eq_iff_iff]
      simp only [Bool.and_eq_true, decide_eq_true_eq]
      exact and_comm
    rw [hsplit, answers_numbered limit hlimit window hsorted, List.filter_map]
    refine congrArg _ (List.filter_congr fun p _ => ?_)
    have hcount : (p.2 : Int) ≤ limit ↔ p.2 ≤ limit.toNat := by omega
    simp only [numberedAnswer, Function.comp_apply, Bool.decide_and, hcount, Bool.decide_eq_true]
    rw [Bool.and_assoc]
  have hbound := length_filter_le (k := limit.toNat) near_inner none
    (hsorted.sublist (times_sublist ip events)) (fun t => decide (a ≤ t ∧ t ≤ b))
    fun u t hu ht => near_of_within hspan (of_decide_eq_true hu) (of_decide_eq_true ht)
  rw [hwithin, List.length_map]
  omega

/-- Two requests pass, and one after the cleanup. -/
theorem passed_within_limit_pair :
    (∀ (ip : String) (a b : Time), b - a ≤ 60 →
      ((passed ip a b (answers (newRateLimiter 2 60)
        [.request "10.0.0.1" 0, .request "10.0.0.1" 5, .request "10.0.0.1" 9, .cleanup 600,
          .request "10.0.0.1" 600])).length : Int) ≤ 2) ∧
    answers (newRateLimiter 2 60)
        [.request "10.0.0.1" 0, .request "10.0.0.1" 5, .request "10.0.0.1" 9, .cleanup 600,
          .request "10.0.0.1" 600] =
      answers (newRateLimiter 2 60)
        ([.request "10.0.0.1" 0, .request "10.0.0.1" 5, .request "10.0.0.1" 9, .cleanup 600,
          .request "10.0.0.1" 600].filter Event.isRequest) :=
  passed_within_limit 2 (by decide) 60 _ (by decide)

end Bound

section Fairness

/-- No window holds more requests than the limit. -/
def Moderate (limit : Int) (window : Duration) (ts : List Time) : Prop :=
  ∀ a : Time, ((ts.filter fun t => a ≤ t ∧ t ≤ a + window).length : Int) ≤ limit

/-- All requests of an address pass. -/
def AllPass (ip : String) (rs : List Answer) : Prop := ∀ r ∈ rs, r.ip = ip → r.allowed = true

/-- No more requests than the limit follow one another with at most a window in between. -/
def Paused (limit : Int) (window : Duration) (ts : List Time) : Prop :=
  ∀ streak, streak <:+: ts → streak.IsChain (Near window) → (streak.length : Int) ≤ limit

/-- The requests of an address all pass exactly if it pauses for more than a window before the limit
is reached, however few of them fall in a window. -/
theorem allPass_iff (limit : Int) (hlimit : 1 ≤ limit) (window : Duration) (events : List Event)
    (hsorted : (events.map Event.time).Pairwise (· ≤ ·)) (ip : String) :
    AllPass ip (answers (newRateLimiter limit window) events) ↔
      Paused limit window (times ip events) := by
  have hnumbers := answers_numbered limit hlimit window hsorted ip
  have hcount : ∀ n : Nat, (n : Int) ≤ limit ↔ n ≤ limit.toNat := by
    intro n
    omega
  have hpass : AllPass ip (answers (newRateLimiter limit window) events) ↔
      ∀ p ∈ numbered (Near window) none (times ip events), p.2 ≤ limit.toNat := by
    have hfiltered : AllPass ip (answers (newRateLimiter limit window) events) ↔
        ∀ r ∈ (answers (newRateLimiter limit window) events).filter (fun r => r.ip = ip),
          r.allowed = true := by
      simp only [AllPass, List.mem_filter, decide_eq_true_eq, and_imp]
    rw [hfiltered, hnumbers, List.forall_mem_map]
    refine forall₂_congr fun p _ => ?_
    rw [← hcount]
    exact decide_eq_true_iff
  rw [hpass, numbered_le_iff]
  exact forall₃_congr fun streak _ _ => (hcount streak.length).symm

theorem allPass_spread : AllPass "10.0.0.1"
      (answers (newRateLimiter 1 60) [.request "10.0.0.1" 0, .request "10.0.0.1" 61]) ↔
    Paused 1 60 (times "10.0.0.1" [.request "10.0.0.1" 0, .request "10.0.0.1" 61]) :=
  allPass_iff 1 (by decide) 60 _ (by decide) "10.0.0.1"

/-- Of requests every 40 seconds no window of a minute holds more than two, and the third is
turned away. -/
theorem steady_turned_away : ¬ ∀ (limit : Int) (_ : 1 ≤ limit) (window : Duration)
    (events : List Event) (_ : (events.map Event.time).Pairwise (· ≤ ·)) (ip : String),
    Moderate limit window (times ip events) →
      AllPass ip (answers (newRateLimiter limit window) events) := by
  intro h
  have hpass := h 2 (by decide) 60 [.request "10.0.0.1" 0, .request "10.0.0.1" 40,
    .request "10.0.0.1" 80] (by decide) "10.0.0.1"
  have hmoderate : ∀ a : Int,
      ((([0, 40, 80] : List Int).filter fun t => a ≤ t ∧ t ≤ a + 60).length : Int) ≤ 2 := by
    intro a
    simp only [List.filter_cons, List.filter_nil, decide_eq_true_eq]
    split_ifs
    all_goals
      simp only [List.length_cons, List.length_nil]
      omega
  exact absurd (hpass hmoderate ⟨"10.0.0.1", 80, false⟩ (by decide) rfl) nofun

end Fairness

end RivicQ.Properties.RateLimits
