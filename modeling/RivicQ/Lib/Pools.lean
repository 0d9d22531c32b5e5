import RivicQ.Lib.Programs
import Mathlib.Data.List.Basic

namespace RivicQ.Lib.Pools

open RivicQ.Lib.Programs

variable {S : Signature} {W α : Type}

/-- Execute a program up to and including its next yielding request. What a
program does between two yielding requests is seen by nobody else. -/
def slice (h : Handler S W) : Program S α → W → Program S α × W
  | .pure a, w => (.pure a, w)
  | .request o k, w =>
    if S.yields o then (k (h o w).1, (h o w).2) else slice h (k (h o w).1) (h o w).2

/-- The yielding request that `slice` executes, with the world it meets. -/
def performed (h : Handler S W) : Program S α → W → Option (S.Op × W)
  | .pure _, _ => none
  | .request o k, w =>
    if S.yields o then some (o, w) else performed h (k (h o w).1) (h o w).2

/-- What local requests preserve holds of the world the yielding request meets. -/
theorem performed_keeps {h : Handler S W} {I : W → Prop}
    (hlocal : ∀ o w, S.yields o = false → I w → I (h o w).2) {p : Program S α} {w w' : W}
    {o : S.Op} (hw : I w) (he : performed h p w = some (o, w')) : I w' := by
  induction p generalizing w with
  | pure a => cases he
  | request o' k ih =>
    cases hy : S.yields o' with
    | true =>
      simp only [performed, hy, if_true, Option.some.injEq, Prod.mk.injEq] at he
      exact he.2 ▸ hw
    | false =>
      simp only [performed, hy, Bool.false_eq_true, if_false] at he
      exact ih _ (hlocal o' w hy hw) he

theorem slice_keeps {h : Handler S W} {I : W → Prop}
    (hlocal : ∀ o w, S.yields o = false → I w → I (h o w).2) {p : Program S α} {w : W}
    (hyield : ∀ o w', performed h p w = some (o, w') → I w' → I (h o w').2) (hw : I w) :
    I (slice h p w).2 := by
  induction p generalizing w with
  | pure a => exact hw
  | request o k ih =>
    cases hy : S.yields o with
    | true =>
      simp only [slice, hy, if_true]
      exact hyield o w (by simp only [performed, hy, if_true]) hw
    | false =>
      simp only [slice, hy, Bool.false_eq_true, if_false]
      refine ih _ (fun o' w' he => hyield o' w' ?_) (hlocal o w hy hw)
      simpa only [performed, hy, Bool.false_eq_true, if_false] using he

/-- Programs running concurrently on one shared world. -/
structure Pool (S : Signature) (W α : Type) where
  world : W
  threads : List (Program S α)

namespace Pool

def step (h : Handler S W) (c : Pool S W α) (i : Nat) : Pool S W α :=
  match c.threads[i]? with
  | none => c
  | some p => ⟨(slice h p c.world).2, c.threads.set i (slice h p c.world).1⟩

/-- Run a pool under a schedule. The schedules are all the interleavings: an
entry that names no thread, or a finished one, changes nothing. -/
def run (h : Handler S W) (c : Pool S W α) : List Nat → Pool S W α
  | [] => c
  | i :: sched => run h (c.step h i) sched

/-- What thread `i` has returned, if it has. -/
def returned (c : Pool S W α) (i : Nat) : Option α :=
  match c.threads[i]? with
  | some (.pure a) => some a
  | _ => none

/-- What one schedule entry performs. -/
def event (h : Handler S W) (c : Pool S W α) (i : Nat) : Option (S.Op × W) :=
  c.threads[i]?.bind (fun p => performed h p c.world)

/-- Every yielding request of a run is one that `P` allows at that point. -/
def Along (h : Handler S W) (P : Pool S W α → S.Op → W → Prop) (c : Pool S W α) :
    List Nat → Prop
  | [] => True
  | i :: sched => (∀ e ∈ c.event h i, P c e.1 e.2) ∧ Along h P (c.step h i) sched

instance instDecidableAlong (h : Handler S W) (P : Pool S W α → S.Op → W → Prop)
    [∀ c o w, Decidable (P c o w)] : ∀ (sched : List Nat) (c : Pool S W α), Decidable (c.Along h P sched)
  | [], _ => isTrue trivial
  | i :: sched, c =>
    have := instDecidableAlong h P sched (c.step h i)
    inferInstanceAs (Decidable ((∀ e ∈ c.event h i, P c e.1 e.2) ∧ Along h P (c.step h i) sched))

theorem along_forall {h : Handler S W} {ι : Type} {P : ι → Pool S W α → S.Op → W → Prop}
    (c : Pool S W α) (sched : List Nat) :
    c.Along h (fun c o w => ∀ x, P x c o w) sched ↔ ∀ x, c.Along h (P x) sched := by
  induction sched generalizing c with
  | nil => exact iff_of_true trivial fun _ => trivial
  | cons i sched ih =>
    simp only [Along, ih, forall_and]
    exact and_congr_left fun _ => ⟨fun h x e he => h e he x, fun h e he x => h x e he⟩

/-- Every yielding request of a run is one that `P` allows its thread at that point. -/
def Meets (h : Handler S W) (P : Nat → S.Op → W → Prop) (c : Pool S W α) : List Nat → Prop
  | [] => True
  | i :: sched => (∀ e ∈ c.event h i, P i e.1 e.2) ∧ Meets h P (c.step h i) sched

instance instDecidableMeets (h : Handler S W) (P : Nat → S.Op → W → Prop)
    [∀ i o w, Decidable (P i o w)] : ∀ (sched : List Nat) (c : Pool S W α), Decidable (c.Meets h P sched)
  | [], _ => isTrue trivial
  | i :: sched, c =>
    have := instDecidableMeets h P sched (c.step h i)
    inferInstanceAs (Decidable ((∀ e ∈ c.event h i, P i e.1 e.2) ∧ Meets h P (c.step h i) sched))

theorem returned_iff {c : Pool S W α} {i : Nat} {a : α} :
    c.returned i = some a ↔ c.threads[i]? = some (.pure a) := by
  unfold returned
  constructor
  · intro h
    split at h
    · cases h
      assumption
    · cases h
  · intro h
    rw [h]

variable (h : Handler S W)

theorem step_of_some {c : Pool S W α} {i : Nat} {p : Program S α} (hp : c.threads[i]? = some p) :
    c.step h i = ⟨(slice h p c.world).2, c.threads.set i (slice h p c.world).1⟩ := by
  simp only [step, hp]

theorem step_of_none {c : Pool S W α} {i : Nat} (hp : c.threads[i]? = none) : c.step h i = c := by
  simp only [step, hp]

theorem event_of_some {c : Pool S W α} {i : Nat} {p : Program S α} (hp : c.threads[i]? = some p) :
    c.event h i = performed h p c.world := by
  simp only [event, hp, Option.bind_some]

/-- The thread at `j` after a step is the one before, unless `j` was scheduled. -/
theorem threads_step (c : Pool S W α) (i j : Nat) (q : Program S α)
    (hq : (c.step h i).threads[j]? = some q) :
    (j ≠ i ∧ c.threads[j]? = some q) ∨
      ∃ p, j = i ∧ c.threads[i]? = some p ∧ q = (slice h p c.world).1 := by
  cases hp : c.threads[i]? with
  | none =>
    rw [step_of_none h hp] at hq
    by_cases hj : j = i
    · subst hj
      rw [hp] at hq
      cases hq
    · exact Or.inl ⟨hj, hq⟩
  | some p =>
    rw [step_of_some h hp] at hq
    by_cases hj : j = i
    · subst hj
      have hlt : j < c.threads.length := (List.getElem?_eq_some_iff.mp hp).1
      rw [List.getElem?_set_self hlt] at hq
      exact Or.inr ⟨p, rfl, rfl, (Option.some.inj hq).symm⟩
    · rw [List.getElem?_set_ne (Ne.symm hj)] at hq
      exact Or.inl ⟨hj, hq⟩

theorem length_step (c : Pool S W α) (i : Nat) :
    (c.step h i).threads.length = c.threads.length := by
  cases hp : c.threads[i]? with
  | none => rw [step_of_none h hp]
  | some p => rw [step_of_some h hp, List.length_set]

theorem length_run (c : Pool S W α) (sched : List Nat) :
    (c.run h sched).threads.length = c.threads.length := by
  induction sched generalizing c with
  | nil => rfl
  | cons i sched ih => exact (ih (c.step h i)).trans (length_step h c i)

theorem run_append (c : Pool S W α) (s t : List Nat) : c.run h (s ++ t) = (c.run h s).run h t := by
  induction s generalizing c with
  | nil => rfl
  | cons i s ih => exact ih (c.step h i)

/-- Scheduling one thread until it returns runs its program undisturbed. -/
theorem exists_run_alone (p : Program S α) {i : Nat} {ps : List (Program S α)} (hi : i < ps.length)
    (w : W) :
    ∃ sched, Pool.run h ⟨w, ps.set i p⟩ (i :: sched) =
      ⟨(Programs.run h p w).2, ps.set i (.pure (Programs.run h p w).1)⟩ := by
  have hstep : ∀ (q : Program S α) (v : W),
      Pool.step h ⟨v, ps.set i q⟩ i = ⟨(slice h q v).2, ps.set i (slice h q v).1⟩ := by
    intro q v
    rw [step_of_some h (p := q) (List.getElem?_set_self hi), List.set_set]
  induction p generalizing w with
  | pure a => exact ⟨[], hstep (.pure a) w⟩
  | request o k ih =>
    obtain ⟨sched, hs⟩ := ih (h o w).1 (h o w).2
    cases hy : S.yields o with
    | true =>
      refine ⟨i :: sched, ?_⟩
      change Pool.run h (Pool.step h _ i) (i :: sched) = _
      rw [hstep]
      simpa only [slice, hy, if_true, run_request] using hs
    | false =>
      refine ⟨sched, ?_⟩
      change Pool.run h (Pool.step h _ i) sched = _ at hs ⊢
      rw [hstep] at hs ⊢
      simpa only [slice, hy, Bool.false_eq_true, if_false, run_request] using hs

end Pool

end RivicQ.Lib.Pools
