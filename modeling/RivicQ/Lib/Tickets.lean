import RivicQ.Lib.Disciplines

namespace RivicQ.Lib.Tickets

open RivicQ.Lib.Programs RivicQ.Lib.Pools RivicQ.Lib.Disciplines

variable {S : Signature} {W α : Type} {h : Handler S W}

/-- How often a schedule executes a yielding request of some kind. -/
def tally (h : Handler S W) (f : S.Op → W → Bool) (c : Pool S W α) : List Nat → Nat
  | [] => 0
  | i :: sched => ((c.event h i).elim 0 fun e => (f e.1 e.2).toNat) + tally h f (c.step h i) sched

/-- A ticket that some requests issue, some find where it is held, and some take away. -/
structure Ticket (h : Handler S W) where
  Held : W → Prop
  issues : S.Op → Bool
  finds : (o : S.Op) → S.Reply o → Bool
  takes : S.Op → Bool
  yields_of_finds : ∀ {o r}, finds o r = true → S.yields o = true
  yields_of_takes : ∀ {o}, takes o = true → S.yields o = true
  held_of_local : ∀ {o w}, S.yields o = false → Held (h o w).2 → Held w
  held_of_not_issues : ∀ {o w}, issues o = false → Held (h o w).2 → Held w
  held_of_finds : ∀ {o w}, finds o (h o w).1 = true → Held w
  not_held_of_takes : ∀ {o w}, takes o = true → ¬ Held (h o w).2

variable (T : Ticket h)

def issued (c : Pool S W α) (sched : List Nat) : Nat := tally h (fun o _ => T.issues o) c sched

def found (c : Pool S W α) (sched : List Nat) : Nat :=
  tally h (fun o w => T.finds o (h o w).1) c sched

/-- The program is about to take the ticket away. -/
def Taking : Program S α → Prop
  | .pure _ => False
  | .request o _ => T.takes o = true

instance : DecidablePred (Taking T (α := α))
  | .pure _ => isFalse id
  | .request o _ => inferInstanceAs (Decidable (T.takes o = true))

/-- The program takes the ticket away right after it has found it, and at no other time. -/
def Presents : Program S α → Prop
  | .pure _ => True
  | .request o k => ∀ r, (Taking T (k r) ↔ T.finds o r = true) ∧ Presents (k r)

theorem presents_pure (a : α) : Presents T (.pure a : Program S α) := trivial

variable {T} in
theorem presents_request {o : S.Op} {k : S.Reply o → Program S α} :
    Presents T (.request o k) ↔ ∀ r, (Taking T (k r) ↔ T.finds o r = true) ∧ Presents T (k r) :=
  Iff.rfl

attribute [irreducible] Presents

variable {T} in
theorem presents_bind {β : Type} {p : Program S α} {f : α → Program S β} (hp : Presents T p)
    (hf : ∀ a, Presents T (f a) ∧ ¬ Taking T (f a)) : Presents T (p.bind f) := by
  induction p with
  | pure a => exact (hf a).1
  | request o k ih =>
    rw [presents_request] at hp
    refine presents_request.mpr fun r => ⟨?_, ih r (hp r).2⟩
    rw [← (hp r).1]
    cases k r with
    | pure a => exact iff_of_false (hf a).2 id
    | request o' k' => exact Iff.rfl

/-- A program that has yet to find what it takes. -/
def Begins (p : Program S α) : Prop := Presents T p ∧ ¬ Taking T p

theorem begins_pure (a : α) : Begins T (.pure a : Program S α) := ⟨presents_pure T a, id⟩

variable {T} in
theorem begins_bind {β : Type} {p : Program S α} {f : α → Program S β} (hp : Begins T p)
    (hf : ∀ a, Begins T (f a)) : Begins T (p.bind f) := by
  refine ⟨presents_bind hp.1 hf, ?_⟩
  cases p with
  | pure a => exact (hf a).2
  | request o k => exact hp.2

variable {T} in
/-- A program that neither finds nor takes the ticket. -/
theorem begins_of_uses {Allowed : S.Op → Prop}
    (hA : ∀ o, Allowed o → T.takes o = false ∧ ∀ r, T.finds o r = false) {p : Program S α}
    (hp : Uses Allowed p) : Begins T p := by
  induction p with
  | pure a => exact begins_pure T a
  | request o k ih =>
    rw [uses_request] at hp
    obtain ⟨htakes, hfinds⟩ := hA o hp.1
    refine ⟨presents_request.mpr fun r => ⟨?_, (ih r (hp.2 r)).1⟩, ?_⟩
    · exact iff_of_false (ih r (hp.2 r)).2 (by simp [hfinds r])
    · simp [Taking, htakes]

/-- Nobody finds the ticket while another is about to take it away. -/
def Apart (c : Pool S W α) (o : S.Op) (w : W) : Prop :=
  T.finds o (h o w).1 = true → ∀ q ∈ c.threads, ¬ Taking T q

instance (c : Pool S W α) (o : S.Op) (w : W) : Decidable (Apart T c o w) :=
  inferInstanceAs (Decidable (_ → ∀ q ∈ c.threads, ¬ Taking T q))

variable {T}

theorem presents_slice {p : Program S α} {w : W} (hp : Presents T p) :
    Presents T (slice h p w).1 := by
  induction p generalizing w with
  | pure a => exact hp
  | request o k ih =>
    rw [presents_request] at hp
    cases hy : S.yields o with
    | true =>
      simp only [slice, hy, if_true]
      exact (hp _).2
    | false =>
      simp only [slice, hy, Bool.false_eq_true, if_false]
      exact ih _ (hp _).2

/-- After a step a program is about to take the ticket exactly if it found it in that step. -/
theorem taking_slice {p : Program S α} {w : W} (hp : Presents T p) (htaking : ¬ Taking T p) :
    Taking T (slice h p w).1 ↔
      ∃ e ∈ performed h p w, T.finds e.1 (h e.1 e.2).1 = true := by
  induction p generalizing w with
  | pure a => simp [slice, performed, Taking]
  | request o k ih =>
    rw [presents_request] at hp
    cases hy : S.yields o with
    | true =>
      simp only [slice, performed, hy, if_true, Option.mem_some_iff, exists_eq_left']
      exact (hp _).1
    | false =>
      simp only [slice, performed, hy, Bool.false_eq_true, if_false]
      refine ih _ (hp _).2 fun ht => ?_
      rw [T.yields_of_finds ((hp _).1.mp ht)] at hy
      cases hy

theorem held_performed {p : Program S α} {w w' : W} {o : S.Op}
    (he : performed h p w = some (o, w')) (hw : T.Held w') : T.Held w := by
  by_contra hne
  exact performed_keeps (I := fun w => ¬ T.Held w) (fun o w hy hw h => hw (T.held_of_local hy h))
    hne he hw

/-- Somebody is about to take the ticket away. -/
def Contended (T : Ticket h) (c : Pool S W α) : Prop := ∃ q ∈ c.threads, Taking T q

variable {c : Pool S W α}

theorem presents_step (hc : ∀ p ∈ c.threads, Presents T p) (i : Nat) :
    ∀ p ∈ (c.step h i).threads, Presents T p := by
  intro q hq
  obtain ⟨j, hj⟩ := List.mem_iff_getElem?.mp hq
  obtain ⟨_, hq⟩ | ⟨p, rfl, hp, rfl⟩ := Pool.threads_step h c i j q hj
  · exact hc q (List.mem_of_getElem? hq)
  · exact presents_slice (hc p (List.mem_of_getElem? hp))

/-- Whoever finds the ticket is about to take it. -/
theorem contended_of_finds (hc : ∀ p ∈ c.threads, Presents T p) {i : Nat} {e : S.Op × W}
    (he : e ∈ c.event h i) (hfinds : T.finds e.1 (h e.1 e.2).1 = true) (hfree : ¬ Contended T c) :
    Contended T (c.step h i) := by
  obtain ⟨p, hp, hperformed⟩ := Option.bind_eq_some_iff.mp he
  have hmem : p ∈ c.threads := List.mem_of_getElem? hp
  have htaking : ¬ Taking T p := fun ht => hfree ⟨p, hmem, ht⟩
  refine ⟨(slice h p c.world).1, ?_, (taking_slice (hc p hmem) htaking).mpr ⟨e, hperformed, hfinds⟩⟩
  rw [Pool.step_of_some h hp]
  exact List.mem_of_getElem? (List.getElem?_set_self (List.getElem?_eq_some_iff.mp hp).1)

/-- Only who has found the ticket is about to take it. -/
theorem finds_of_contended (hc : ∀ p ∈ c.threads, Presents T p) {i : Nat}
    (hstep : Contended T (c.step h i)) (hfree : ¬ Contended T c) :
    ∃ e ∈ c.event h i, T.finds e.1 (h e.1 e.2).1 = true := by
  obtain ⟨q, hq, htaking⟩ := hstep
  obtain ⟨j, hj⟩ := List.mem_iff_getElem?.mp hq
  obtain ⟨_, hq⟩ | ⟨p, rfl, hp, rfl⟩ := Pool.threads_step h c i j q hj
  · exact absurd ⟨q, List.mem_of_getElem? hq, htaking⟩ hfree
  · have hmem : p ∈ c.threads := List.mem_of_getElem? hp
    rw [Pool.event_of_some h hp]
    exact (taking_slice (hc p hmem) fun ht => hfree ⟨p, hmem, ht⟩).mp htaking

/-- What is held after a step was so before, unless it was issued. -/
theorem held_of_step {i : Nat} (hissues : ∀ e ∈ c.event h i, T.issues e.1 = false)
    (hheld : T.Held (c.step h i).world) : T.Held c.world := by
  cases hp : c.threads[i]? with
  | none => rwa [Pool.step_of_none h hp] at hheld
  | some p =>
    rw [Pool.step_of_some h hp] at hheld
    rw [Pool.event_of_some h hp] at hissues
    by_contra hne
    exact slice_keeps (I := fun w => ¬ T.Held w) (fun o w hy hw h => hw (T.held_of_local hy h))
      (fun o w he hw h => hw (T.held_of_not_issues (hissues _ he) h)) hne hheld

/-- Who is about to take the ticket leaves nothing to be held. -/
theorem free_of_held {i : Nat} (hheld : T.Held (c.step h i).world)
    (hfree : ¬ Contended T (c.step h i)) : ¬ Contended T c := by
  rintro ⟨q, hq, htaking⟩
  obtain ⟨j, hj⟩ := List.mem_iff_getElem?.mp hq
  by_cases hji : j = i
  · subst hji
    rw [Pool.step_of_some h hj] at hheld
    cases q with
    | pure a => exact htaking
    | request o k =>
      have hy := T.yields_of_takes htaking
      simp only [slice, hy, if_true] at hheld
      exact T.not_held_of_takes htaking hheld
  · refine hfree ⟨q, List.mem_of_getElem? (i := j) ?_, htaking⟩
    cases hp : c.threads[i]? with
    | none => rwa [Pool.step_of_none h hp]
    | some p =>
      rw [Pool.step_of_some h hp, List.getElem?_set_ne (Ne.symm hji)]
      exact hj

theorem found_cons (c : Pool S W α) (i : Nat) (sched : List Nat) :
    found T c (i :: sched) =
      ((c.event h i).elim 0 fun e => (T.finds e.1 (h e.1 e.2).1).toNat) +
        found T (c.step h i) sched := rfl

theorem issued_cons (c : Pool S W α) (i : Nat) (sched : List Nat) :
    issued T c (i :: sched) =
      ((c.event h i).elim 0 fun e => (T.issues e.1).toNat) + issued T (c.step h i) sched := rfl

/-- A ticket is found no more often than it is issued, counting the one held at the start. -/
theorem found_le (sched : List Nat) (hc : ∀ p ∈ c.threads, Presents T p)
    (ha : c.Along h (Apart T) sched) :
    found T c sched ≤ issued T c sched + 1 ∧
      (¬ (T.Held c.world ∧ ¬ Contended T c) → found T c sched ≤ issued T c sched) := by
  induction sched generalizing c with
  | nil => exact ⟨Nat.zero_le _, fun _ => Nat.le_refl _⟩
  | cons i sched ih =>
    obtain ⟨hapart, hrest⟩ := ha
    obtain ⟨hle, hspent⟩ := ih (presents_step hc i) hrest
    rw [found_cons, issued_cons]
    by_cases hfinds : ∃ e ∈ c.event h i, T.finds e.1 (h e.1 e.2).1 = true
    · obtain ⟨e, he, hfinds⟩ := hfinds
      obtain ⟨p, hp, hperformed⟩ := Option.bind_eq_some_iff.mp he
      have hheld : T.Held c.world := held_performed hperformed (T.held_of_finds hfinds)
      have hfree : ¬ Contended T c := fun ⟨q, hq, ht⟩ => hapart e he hfinds q hq ht
      have hcontended := contended_of_finds hc he hfinds hfree
      have hle' := hspent fun h => h.2 hcontended
      refine ⟨?_, fun hne => absurd ⟨hheld, hfree⟩ hne⟩
      rw [Option.mem_def.mp he, Option.elim_some, Option.elim_some, hfinds, Bool.toNat_true]
      omega
    · have hzero : ((c.event h i).elim 0 fun e => (T.finds e.1 (h e.1 e.2).1).toNat) = 0 := by
        cases he : c.event h i with
        | none => rfl
        | some e =>
          have hfalse : T.finds e.1 (h e.1 e.2).1 = false :=
            Bool.eq_false_iff.mpr fun hf => hfinds ⟨e, he, hf⟩
          rw [Option.elim_some, hfalse, Bool.toNat_false]
      rw [hzero, Nat.zero_add]
      by_cases hissues : ∀ e ∈ c.event h i, T.issues e.1 = false
      · refine ⟨by omega, fun hne => ?_⟩
        have hle' := hspent fun ⟨hheld, hfree⟩ =>
          hne ⟨held_of_step hissues hheld, free_of_held hheld hfree⟩
        omega
      · obtain ⟨e, he, hissued⟩ : ∃ e ∈ c.event h i, T.issues e.1 = true := by simpa using hissues
        rw [Option.mem_def.mp he, Option.elim_some, hissued, Bool.toNat_true]
        exact ⟨by omega, fun _ => by omega⟩

/-- Where somebody finds the ticket while another is about to take it, it is found twice. -/
theorem found_twice (sched : List Nat) (hc : ∀ p ∈ c.threads, Presents T p)
    (ha : ¬ c.Along h (Apart T) sched) :
    1 ≤ found T c sched ∧ (¬ Contended T c → 2 ≤ found T c sched) := by
  induction sched generalizing c with
  | nil => exact absurd trivial ha
  | cons i sched ih =>
    rw [found_cons]
    by_cases hapart : ∀ e ∈ c.event h i, Apart T c e.1 e.2
    · have hrest : ¬ (c.step h i).Along h (Apart T) sched := fun hr => ha ⟨hapart, hr⟩
      obtain ⟨hone, htwo⟩ := ih (presents_step hc i) hrest
      refine ⟨by omega, fun hfree => ?_⟩
      by_cases hstep : Contended T (c.step h i)
      · obtain ⟨e, he, hfinds⟩ := finds_of_contended hc hstep hfree
        rw [Option.mem_def.mp he, Option.elim_some, hfinds, Bool.toNat_true]
        omega
      · have := htwo hstep
        omega
    · obtain ⟨e, he, hfinds, hcontended⟩ : ∃ e ∈ c.event h i, T.finds e.1 (h e.1 e.2).1 = true ∧
          Contended T c := by simpa [Apart, Contended] using hapart
      rw [Option.mem_def.mp he, Option.elim_some, hfinds, Bool.toNat_true]
      exact ⟨by omega, fun hfree => absurd hcontended hfree⟩

/-- A ticket that is neither there nor issued is not found. -/
theorem not_found (sched : List Nat) (hheld : ¬ T.Held c.world) (hissued : issued T c sched = 0) :
    c.Along h (fun _ o w => ¬ T.finds o (h o w).1 = true) sched := by
  induction sched generalizing c with
  | nil => trivial
  | cons i sched ih =>
    rw [issued_cons, Nat.add_eq_zero_iff] at hissued
    obtain ⟨hnow, hrest⟩ := hissued
    have hissues : ∀ e ∈ c.event h i, T.issues e.1 = false := by
      intro e he
      rw [Option.mem_def.mp he, Option.elim_some] at hnow
      exact Bool.toNat_eq_zero.mp hnow
    refine ⟨fun e he hfinds => ?_, ih (fun hstep => hheld (held_of_step hissues hstep)) hrest⟩
    obtain ⟨p, hp, hperformed⟩ := Option.bind_eq_some_iff.mp he
    exact hheld (held_performed hperformed (T.held_of_finds hfinds))

/-- The executions of two kinds of requests, where no request is of both. -/
theorem tally_add {f g k : S.Op → W → Bool}
    (hf : ∀ o w, (f o w).toNat = (g o w).toNat + (k o w).toNat) (sched : List Nat)
    (c : Pool S W α) : tally h f c sched = tally h g c sched + tally h k c sched := by
  induction sched generalizing c with
  | nil => rfl
  | cons i sched ih =>
    simp only [tally, ih]
    cases c.event h i with
    | none => simp only [Option.elim_none]; omega
    | some e => simp only [Option.elim_some, hf]; omega

end RivicQ.Lib.Tickets
