import Mathlib.Init

namespace RivicQ.Lib.Programs

/-- The requests a program may make of its environment, the reply each one
gets, and the requests at which another program may be scheduled. -/
structure Signature where
  Op : Type
  Reply : Op → Type
  yields : Op → Bool

/-- A program over a signature: it returns, or makes a request and goes on
with the reply. -/
inductive Program (S : Signature) (α : Type) : Type where
  | pure (a : α)
  | request (o : S.Op) (k : S.Reply o → Program S α)

abbrev Handler (S : Signature) (W : Type) := (o : S.Op) → W → S.Reply o × W

variable {S : Signature} {W α β γ : Type}

namespace Program

def bind : Program S α → (α → Program S β) → Program S β
  | .pure a, f => f a
  | .request o k, f => .request o (fun r => (k r).bind f)

/-- A single request, returning its reply. -/
def perform (o : S.Op) : Program S (S.Reply o) := .request o .pure

instance : Monad (Program S) where
  pure := .pure
  bind := bind

@[simp] theorem bind_eq (p : Program S α) (f : α → Program S β) : p >>= f = p.bind f := rfl

@[simp] theorem pure_eq (a : α) : (Pure.pure a : Program S α) = .pure a := rfl

@[simp] theorem pure_bind (a : α) (f : α → Program S β) : (Program.pure a).bind f = f a := rfl

@[simp] theorem request_bind (o : S.Op) (k : S.Reply o → Program S α) (f : α → Program S β) :
    (Program.request o k).bind f = .request o (fun r => (k r).bind f) := rfl

@[simp] theorem perform_bind (o : S.Op) (f : S.Reply o → Program S β) :
    (perform o).bind f = .request o f := rfl

end Program

/-- Execute a program with nothing scheduled in between. -/
def run (h : Handler S W) : Program S α → W → α × W
  | .pure a, w => (a, w)
  | .request o k, w => run h (k (h o w).1) (h o w).2

@[simp] theorem run_pure (h : Handler S W) (a : α) (w : W) : run h (.pure a) w = (a, w) := rfl

@[simp] theorem run_request (h : Handler S W) (o : S.Op) (k : S.Reply o → Program S α) (w : W) :
    run h (.request o k) w = run h (k (h o w).1) (h o w).2 := rfl

theorem run_bind (h : Handler S W) (p : Program S α) (f : α → Program S β) (w : W) :
    run h (p.bind f) w = run h (f (run h p w).1) (run h p w).2 := by
  induction p generalizing w with
  | pure a => rfl
  | request o k ih => simp only [Program.request_bind, run_request, ih]

end RivicQ.Lib.Programs

namespace RivicQ.Lib.Results

open RivicQ.Lib.Programs

variable {S : Signature} {W α β : Type}

/-- Whatever the replies are, what the program returns satisfies `Post`. -/
def Returns (Post : α → Prop) : Program S α → Prop
  | .pure a => Post a
  | .request _ k => ∀ r, Returns Post (k r)

variable {Post : α → Prop} {Post' : β → Prop} {p : Program S α} {f : α → Program S β}

theorem returns_pure {a : α} : Returns (S := S) Post (.pure a) ↔ Post a := Iff.rfl

theorem returns_request {o : S.Op} {k : S.Reply o → Program S α} :
    Returns Post (.request o k) ↔ ∀ r, Returns Post (k r) := Iff.rfl

attribute [irreducible] Returns

theorem returns_mono {Weak : α → Prop} (h : ∀ a, Post a → Weak a) (hp : Returns Post p) :
    Returns Weak p := by
  induction p with
  | pure a => exact returns_pure.mpr (h a (returns_pure.mp hp))
  | request o k ih => exact returns_request.mpr fun r => ih r (returns_request.mp hp r)

theorem returns_bind (hp : Returns Post p) (hf : ∀ a, Post a → Returns Post' (f a)) :
    Returns Post' (p.bind f) := by
  induction p with
  | pure a => exact hf a (returns_pure.mp hp)
  | request o k ih => exact returns_request.mpr fun r => ih r (returns_request.mp hp r)

theorem returns_of_forall (hf : ∀ a, Returns Post' (f a)) : Returns Post' (p.bind f) := by
  induction p with
  | pure a => exact hf a
  | request o k ih => exact returns_request.mpr fun r => ih r

/-- What a program returns, however its requests are served. -/
theorem run_returns (h : Handler S W) (hp : Returns Post p) (w : W) : Post (run h p w).1 := by
  induction p generalizing w with
  | pure a => exact returns_pure.mp hp
  | request o k ih => exact ih _ (returns_request.mp hp _) _

end RivicQ.Lib.Results

namespace RivicQ.Lib.Interruptions

open RivicQ.Lib.Programs

variable {S : Signature} {W α β : Type} (h : Handler S W)

/-- The world that an execution is cut off in after a number of requests. -/
def cutOff : Nat → Program S α → W → W
  | 0, _, w => w
  | _ + 1, .pure _, w => w
  | n + 1, .request o k, w => cutOff n (k (h o w).1) (h o w).2

/-- `I` holds in every world of the execution, and `Post` where it returns. -/
def Always (I : W → Prop) (Post : α → W → Prop) : Program S α → W → Prop
  | .pure a, w => I w ∧ Post a w
  | .request o k, w => I w ∧ Always I Post (k (h o w).1) (h o w).2

variable {h} {I : W → Prop} {Post : α → W → Prop} {w : W}

theorem always_pure {a : α} : Always h I Post (.pure a) w ↔ I w ∧ Post a w := Iff.rfl

theorem always_request {o : S.Op} {k : S.Reply o → Program S α} :
    Always h I Post (.request o k) w ↔ I w ∧ Always h I Post (k (h o w).1) (h o w).2 := Iff.rfl

attribute [irreducible] Always

theorem always_mono {I' : W → Prop} {Post' : α → W → Prop} (hI : ∀ w, I w → I' w)
    (hPost : ∀ a w, Post a w → Post' a w) {p : Program S α} (hp : Always h I Post p w) :
    Always h I' Post' p w := by
  induction p generalizing w with
  | pure a =>
    rw [always_pure] at hp ⊢
    exact ⟨hI w hp.1, hPost a w hp.2⟩
  | request o k ih =>
    rw [always_request] at hp ⊢
    exact ⟨hI w hp.1, ih _ hp.2⟩

theorem always_bind {p : Program S α} {f : α → Program S β} {Post' : β → W → Prop}
    (hp : Always h I (fun a w' => Always h I Post' (f a) w') p w) :
    Always h I Post' (p.bind f) w := by
  induction p generalizing w with
  | pure a => exact (always_pure.mp hp).2
  | request o k ih =>
    rw [always_request] at hp
    rw [Program.request_bind, always_request]
    exact ⟨hp.1, ih _ hp.2⟩

theorem always_and {p : Program S α} (hp : Always h I Post p w) :
    Always h I (fun a w' => I w' ∧ Post a w') p w := by
  induction p generalizing w with
  | pure a =>
    rw [always_pure] at hp ⊢
    exact ⟨hp.1, hp⟩
  | request o k ih =>
    rw [always_request] at hp ⊢
    exact ⟨hp.1, ih _ hp.2⟩

/-- Wherever the execution is cut off, the invariant holds. -/
theorem inv_cutOff {p : Program S α} (hp : Always h I Post p w) (n : Nat) : I (cutOff h n p w) := by
  induction n generalizing p w with
  | zero =>
    cases p with
    | pure a => exact (always_pure.mp hp).1
    | request o k => exact (always_request.mp hp).1
  | succ n ih =>
    cases p with
    | pure a => exact (always_pure.mp hp).1
    | request o k => exact ih (always_request.mp hp).2

theorem post_run {p : Program S α} (hp : Always h I Post p w) :
    I (run h p w).2 ∧ Post (run h p w).1 (run h p w).2 := by
  induction p generalizing w with
  | pure a => exact always_pure.mp hp
  | request o k ih => exact ih _ (always_request.mp hp).2

end RivicQ.Lib.Interruptions
