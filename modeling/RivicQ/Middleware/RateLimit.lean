import Mathlib
import RivicQ.Lib.Projections
import RivicQ.Lib.Tables

namespace RivicQ.Middleware.RateLimit

open RivicQ.Lib.Tables RivicQ.Lib.Projections

/-- Nanoseconds. -/
abbrev Time := Int

abbrev Duration := Int

def maxDuration : Duration := 2 ^ 63 - 1

def minDuration : Duration := -2 ^ 63

/-- `now.Sub(t)`, which is cut off at the shortest and at the longest duration. -/
def sub (now t : Time) : Duration := max minDuration (min maxDuration (now - t))

structure Visitor where
  count : Nat
  lastSeen : Time

structure RateLimiter where
  visitors : Table Visitor := ∅
  limit : Int
  window : Duration

def newRateLimiter (limit : Int) (window : Duration) : RateLimiter := { limit, window }

/-- What the cleanup does at one tick. -/
def RateLimiter.cleanup (rl : RateLimiter) (now : Time) : RateLimiter :=
  { rl with visitors := retain (fun v => !decide (sub now v.lastSeen > rl.window)) rl.visitors }

def RateLimiter.allow (rl : RateLimiter) (ip : String) (now : Time) : Bool × RateLimiter :=
  match rl.visitors.lookup ip with
  | none => (true, { rl with visitors := rl.visitors.insert ip ⟨1, now⟩ })
  | some v =>
    if sub now v.lastSeen > rl.window then
      (true, { rl with visitors := rl.visitors.insert ip ⟨1, now⟩ })
    else
      (decide ((v.count + 1 : Nat) ≤ rl.limit),
        { rl with visitors := rl.visitors.insert ip ⟨v.count + 1, now⟩ })

section Runs

/-- What takes the lock of a limiter. -/
inductive Event where
  | request (ip : String) (now : Time)
  | cleanup (now : Time)

def Event.time : Event → Time
  | .request _ now => now
  | .cleanup now => now

def Event.isRequest : Event → Bool
  | .request _ _ => true
  | .cleanup _ => false

/-- The answer to a request. -/
structure Answer where
  ip : String
  now : Time
  allowed : Bool
  deriving DecidableEq

def step (rl : RateLimiter) : Event → Option Answer × RateLimiter
  | .request ip now => (some ⟨ip, now, (rl.allow ip now).1⟩, (rl.allow ip now).2)
  | .cleanup now => (none, rl.cleanup now)

/-- The answers of a run, in order. -/
def answers (rl : RateLimiter) (events : List Event) : List Answer :=
  (trace step rl events).filterMap Prod.fst

/-- The times of the requests of an address. -/
def times (ip : String) (events : List Event) : List Time :=
  events.filterMap fun e =>
    match e with
    | .request ip' now => if ip' = ip then some now else none
    | .cleanup _ => none

end Runs

end RivicQ.Middleware.RateLimit
