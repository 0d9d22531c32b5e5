import Mathlib.Data.List.Infix
import Mathlib.Logic.Function.Basic
import Mathlib.Order.WellFounded

namespace RivicQ.Lib.Channels

/-- What a thread's next step comes to: it waits, it brings the whole program down, or it is
taken. -/
inductive Outcome (σ : Type) where
  | blocked
  | panics
  | moves (s : σ)

namespace Outcome

variable {σ τ : Type}

def map (f : σ → τ) : Outcome σ → Outcome τ
  | .blocked => .blocked
  | .panics => .panics
  | .moves s => .moves (f s)

def toOption : Outcome σ → Option σ
  | .moves s => some s
  | _ => none

theorem toOption_eq_some {o : Outcome σ} {s : σ} : o.toOption = some s ↔ o = .moves s := by
  cases o <;> simp [toOption]

end Outcome

/-- A buffered channel. -/
structure Channel (α : Type) where
  capacity : Nat
  queue : List α
  closed : Bool

namespace Channel

variable {α : Type}

def make (capacity : Nat) : Channel α := ⟨capacity, [], false⟩

/-- A send in a `select` with a default case: a value that finds no room is dropped. -/
def offer (c : Channel α) (a : α) : Outcome (Channel α) :=
  if c.closed then .panics
  else if c.queue.length < c.capacity then .moves { c with queue := c.queue ++ [a] }
  else .moves c

def close (c : Channel α) : Outcome (Channel α) :=
  if c.closed then .panics else .moves { c with closed := true }

/-- What a receive gets: the oldest value, or nothing once the channel is closed and empty. -/
def receive (c : Channel α) : Outcome (Option α × Channel α) :=
  match c.queue with
  | a :: rest => .moves (some a, { c with queue := rest })
  | [] => if c.closed then .moves (none, c) else .blocked

variable {c c' : Channel α} {a : α} {r : Option α}

theorem offer_cases (h : c.offer a = .moves c') :
    c.closed = false ∧
      (c' = { c with queue := c.queue ++ [a] } ∧ c.queue.length < c.capacity ∨
        c' = c ∧ c.capacity ≤ c.queue.length) := by
  unfold offer at h
  split at h
  · cases h
  · rename_i hopen
    refine ⟨by simpa using hopen, ?_⟩
    split at h
    · rename_i hroom
      exact Or.inl ⟨(Outcome.moves.inj h).symm, hroom⟩
    · rename_i hfull
      exact Or.inr ⟨(Outcome.moves.inj h).symm, Nat.le_of_not_lt hfull⟩

theorem close_cases (h : c.close = .moves c') :
    c.closed = false ∧ c' = { c with closed := true } := by
  unfold close at h
  split at h
  · cases h
  · rename_i hopen
    exact ⟨by simpa using hopen, (Outcome.moves.inj h).symm⟩

theorem receive_cases (h : c.receive = .moves (r, c')) :
    (∃ a rest, c.queue = a :: rest ∧ r = some a ∧ c' = { c with queue := rest }) ∨
      c.queue = [] ∧ c.closed = true ∧ r = none ∧ c' = c := by
  unfold receive at h
  split at h
  · rename_i a rest hq
    obtain ⟨rfl, rfl⟩ := Prod.mk.inj (Outcome.moves.inj h)
    exact Or.inl ⟨a, rest, hq, rfl, rfl⟩
  · rename_i hq
    split at h
    · rename_i hclosed
      obtain ⟨rfl, rfl⟩ := Prod.mk.inj (Outcome.moves.inj h)
      exact Or.inr ⟨hq, hclosed, rfl, rfl⟩
    · cases h

theorem offer_ne_panics (h : c.closed = false) (a : α) : c.offer a ≠ .panics := by
  unfold offer
  rw [if_neg (by simp [h])]
  split <;> simp

theorem close_ne_panics (h : c.closed = false) : c.close ≠ .panics := by
  simp [close, h]

theorem receive_ne_panics (c : Channel α) : c.receive ≠ .panics := by
  unfold receive
  split
  · simp
  · split <;> simp

end Channel

section Reach

variable {S A : Type} {step : S → A → Outcome S} {P : S → A → Prop} {s₀ s : S}

/-- The states that the steps of a program reach, where `P` allows each of them. -/
inductive Reach (step : S → A → Outcome S) (P : S → A → Prop) (s₀ : S) : S → Prop
  | start : Reach step P s₀ s₀
  | next {s s' : S} (a : A) (h : Reach step P s₀ s) (ha : P s a) (hs : step s a = .moves s') :
      Reach step P s₀ s'

/-- What holds at first and is kept by every step holds of every state reached. -/
theorem Reach.invariant {I : S → Prop} (hstart : I s₀)
    (hkeep : ∀ s s' a, I s → P s a → step s a = .moves s' → I s') (h : Reach step P s₀ s) :
    I s := by
  induction h with
  | start => exact hstart
  | next a _ ha hs ih => exact hkeep _ _ a ih ha hs

theorem Reach.mono {Q : S → A → Prop} (hPQ : ∀ s a, P s a → Q s a) (h : Reach step P s₀ s) :
    Reach step Q s₀ s := by
  induction h with
  | start => exact .start
  | next a _ ha hs ih => exact .next a ih (hPQ _ a ha) hs

/-- The state that a list of steps leads to, if each of them can be taken and is allowed. -/
def follow (step : S → A → Outcome S) (allowed : S → A → Bool) (s : S) : List A → Option S
  | [] => some s
  | a :: as =>
    if allowed s a then (step s a).toOption.bind fun s' => follow step allowed s' as else none

theorem reach_of_follow (allowed : S → A → Bool) (hP : ∀ s a, allowed s a = true → P s a)
    (as : List A) {s' : S} (hs : Reach step P s₀ s) (h : follow step allowed s as = some s') :
    Reach step P s₀ s' := by
  induction as generalizing s with
  | nil =>
    cases h
    exact hs
  | cons a as ih =>
    unfold follow at h
    split at h
    · rename_i ha
      obtain ⟨s₁, hs₁, h⟩ := Option.bind_eq_some_iff.mp h
      exact ih (.next a hs (hP s a ha) (Outcome.toOption_eq_some.mp hs₁)) h
    · cases h

end Reach

/-- Where every thread that waits does so for one of a lower rank, each chain of waiting
threads ends at one that does not wait. -/
theorem exists_not_waiting {T : Type} (waits : T → Option T) (rank : T → Nat)
    (hrank : ∀ t u, waits t = some u → rank u < rank t) (t : T) :
    ∃ u, Relation.ReflTransGen (fun t u => waits t = some u) t u ∧ waits u = none := by
  induction hn : rank t using Nat.strong_induction_on generalizing t with
  | _ n ih =>
    cases hw : waits t with
    | none => exact ⟨t, .refl, hw⟩
    | some u =>
      obtain ⟨v, hv, hend⟩ := ih (rank u) (hn ▸ hrank t u hw) u rfl
      exact ⟨v, .head hw hv, hend⟩

end RivicQ.Lib.Channels

namespace RivicQ.Lib.Locks

open Function (update update_self update_of_ne)

variable {L T X P : Type} [DecidableEq L] [DecidableEq T]

/-- Objects that a lock of their own protects. While the lock is free an object is in order;
who holds it knows, from where he is in his program, what state the object is in. -/
structure Monitors (mu : X → Option T) (held : P → Option L) (Free : X → Prop)
    (Knows : P → X → Prop) (object : L → X) (position : T → P) : Prop where
  locks : ∀ l t, mu (object l) = some t ↔ held (position t) = some l
  free : ∀ l, mu (object l) = none → Free (object l)
  knows : ∀ l t, mu (object l) = some t → Knows (position t) (object l)

namespace Monitors

variable {mu : X → Option T} {held : P → Option L} {Free : X → Prop} {Knows : P → X → Prop}
  {object : L → X} {position : T → P} {l : L} {t : T} {x : X} {p : P}

/-- A step of a thread that holds a lock, or takes one, on the object of that lock. -/
theorem step (h : Monitors mu held Free Knows object position)
    (ht : ∀ l', held (position t) = some l' → l' = l) (hp : ∀ l', held p = some l' → l' = l)
    (hl : ∀ u, mu (object l) = some u → u = t) (hx : ∀ u, mu x = some u → u = t)
    (hheld : mu x = some t ↔ held p = some l) (hfree : mu x = none → Free x)
    (hknows : mu x = some t → Knows p x) :
    Monitors mu held Free Knows (update object l x) (update position t p) := by
  constructor
  · intro l' u
    by_cases hl' : l' = l
    · subst hl'
      rw [update_self]
      by_cases hu : u = t
      · subst hu
        rw [update_self]
        exact hheld
      · rw [update_of_ne hu]
        refine iff_of_false (fun hxu => hu (hx u hxu)) fun hpu => hu (hl u ((h.locks l' u).mpr hpu))
    · rw [update_of_ne hl']
      by_cases hu : u = t
      · subst hu
        rw [update_self]
        exact iff_of_false (fun hlu => hl' (ht l' ((h.locks l' u).mp hlu)))
          fun hpl => hl' (hp l' hpl)
      · rw [update_of_ne hu]
        exact h.locks l' u
  · intro l' hnone
    by_cases hl' : l' = l
    · subst hl'
      rw [update_self] at hnone ⊢
      exact hfree hnone
    · rw [update_of_ne hl'] at hnone ⊢
      exact h.free l' hnone
  · intro l' u hu
    by_cases hl' : l' = l
    · subst hl'
      rw [update_self] at hu ⊢
      obtain rfl := hx u hu
      rw [update_self]
      exact hknows hu
    · rw [update_of_ne hl'] at hu ⊢
      have hut : u ≠ t := by
        rintro rfl
        exact hl' (ht l' ((h.locks l' u).mp hu))
      rw [update_of_ne hut]
      exact h.knows l' u hu

theorem acquire (h : Monitors mu held Free Knows object position) (hl : mu (object l) = none)
    (ht : held (position t) = none) (hx : mu x = some t) (hp : held p = some l)
    (hknows : Free (object l) → Knows p x) :
    Monitors mu held Free Knows (update object l x) (update position t p) := by
  refine h.step ?_ ?_ ?_ ?_ ?_ ?_ ?_
  · intro l' hl'
    rw [ht] at hl'
    cases hl'
  · intro l' hl'
    exact Option.some.inj (hl'.symm.trans hp)
  · intro u hu
    rw [hl] at hu
    cases hu
  · intro u hu
    exact Option.some.inj (hu.symm.trans hx)
  · exact iff_of_true hx hp
  · intro hnone
    rw [hx] at hnone
    cases hnone
  · intro _
    exact hknows (h.free l hl)

theorem work (h : Monitors mu held Free Knows object position) (ht : held (position t) = some l)
    (hx : mu x = some t) (hp : held p = some l)
    (hknows : Knows (position t) (object l) → Knows p x) :
    Monitors mu held Free Knows (update object l x) (update position t p) := by
  have howner := (h.locks l t).mpr ht
  refine h.step ?_ ?_ ?_ ?_ ?_ ?_ ?_
  · intro l' hl'
    exact Option.some.inj (hl'.symm.trans ht)
  · intro l' hl'
    exact Option.some.inj (hl'.symm.trans hp)
  · intro u hu
    exact Option.some.inj (hu.symm.trans howner)
  · intro u hu
    exact Option.some.inj (hu.symm.trans hx)
  · exact iff_of_true hx hp
  · intro hnone
    rw [hx] at hnone
    cases hnone
  · intro _
    exact hknows (h.knows l t howner)

/-- A step of the holder of a lock that does not change its object. -/
theorem keep (h : Monitors mu held Free Knows object position) (ht : held (position t) = some l)
    (hp : held p = some l) (hknows : Knows (position t) (object l) → Knows p (object l)) :
    Monitors mu held Free Knows object (update position t p) := by
  have hwork := h.work ht ((h.locks l t).mpr ht) hp hknows
  rwa [Function.update_eq_self] at hwork

theorem release (h : Monitors mu held Free Knows object position)
    (ht : held (position t) = some l) (hx : mu x = none) (hp : held p = none)
    (hfree : Knows (position t) (object l) → Free x) :
    Monitors mu held Free Knows (update object l x) (update position t p) := by
  have howner := (h.locks l t).mpr ht
  refine h.step ?_ ?_ ?_ ?_ ?_ ?_ ?_
  · intro l' hl'
    exact Option.some.inj (hl'.symm.trans ht)
  · intro l' hl'
    rw [hp] at hl'
    cases hl'
  · intro u hu
    exact Option.some.inj (hu.symm.trans howner)
  · intro u hu
    rw [hx] at hu
    cases hu
  · exact iff_of_false (by simp [hx]) (by simp [hp])
  · intro _
    exact hfree (h.knows l t howner)
  · intro hsome
    rw [hx] at hsome
    cases hsome

omit [DecidableEq L] in
/-- A step of a thread that holds no lock before or after it. -/
theorem aside (h : Monitors mu held Free Knows object position) (ht : held (position t) = none)
    (hp : held p = none) : Monitors mu held Free Knows object (update position t p) := by
  constructor
  · intro l u
    by_cases hu : u = t
    · subst hu
      rw [update_self]
      rw [h.locks, ht, hp]
    · rw [update_of_ne hu]
      exact h.locks l u
  · exact h.free
  · intro l u hu
    have hut : u ≠ t := by
      rintro rfl
      rw [h.locks, ht] at hu
      cases hu
    rw [update_of_ne hut]
    exact h.knows l u hu

omit [DecidableEq T] in
/-- A change of an object that its lock does not protect it from. -/
theorem touch (h : Monitors mu held Free Knows object position) (hx : mu x = mu (object l))
    (hfree : Free (object l) → Free x)
    (hknows : ∀ u, mu (object l) = some u → Knows (position u) (object l) → Knows (position u) x) :
    Monitors mu held Free Knows (update object l x) position := by
  constructor
  · intro l' u
    by_cases hl' : l' = l
    · subst hl'
      rw [update_self, hx]
      exact h.locks l' u
    · rw [update_of_ne hl']
      exact h.locks l' u
  · intro l' hnone
    by_cases hl' : l' = l
    · subst hl'
      rw [update_self] at hnone ⊢
      exact hfree (h.free l' (hx ▸ hnone))
    · rw [update_of_ne hl'] at hnone ⊢
      exact h.free l' hnone
  · intro l' u hu
    by_cases hl' : l' = l
    · subst hl'
      rw [update_self] at hu ⊢
      exact hknows u (hx ▸ hu) (h.knows l' u (hx ▸ hu))
    · rw [update_of_ne hl'] at hu ⊢
      exact h.knows l' u hu

end Monitors

end RivicQ.Lib.Locks
