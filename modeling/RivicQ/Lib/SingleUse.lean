import RivicQ.Lib.Disciplines

namespace RivicQ.Lib.SingleUse

open RivicQ.Lib.Programs RivicQ.Lib.Pools RivicQ.Lib.Disciplines

variable {S : Signature} {W α β : Type} {h : Handler S W}

/-- The program returns only failures unless one of its requests fires. -/
def Until (Fires : (o : S.Op) → S.Reply o → Prop) (Fails : α → Prop) : Program S α → Prop
  | .pure a => Fails a
  | .request o k => ∀ r, Fires o r ∨ Until Fires Fails (k r)

variable {Fires : (o : S.Op) → S.Reply o → Prop} {Fails : α → Prop}

theorem until_pure {a : α} : Until (S := S) Fires Fails (.pure a) ↔ Fails a := Iff.rfl

theorem until_request {o : S.Op} {k : S.Reply o → Program S α} :
    Until Fires Fails (.request o k) ↔ ∀ r, Fires o r ∨ Until Fires Fails (k r) := Iff.rfl

attribute [irreducible] Until

theorem until_bind {Fails' : β → Prop} {p : Program S α} {f : α → Program S β}
    (hp : Until Fires Fails p) (hf : ∀ a, Fails a → Until Fires Fails' (f a)) :
    Until Fires Fails' (p.bind f) := by
  induction p with
  | pure a => exact hf a (until_pure.mp hp)
  | request o k ih => exact until_request.mpr fun r => (until_request.mp hp r).imp id (ih r)

theorem until_of_forall {Fails' : β → Prop} {p : Program S α} {f : α → Program S β}
    (hf : ∀ a, Until Fires Fails' (f a)) : Until Fires Fails' (p.bind f) := by
  induction p with
  | pure a => exact hf a
  | request o k ih => exact until_request.mpr fun r => Or.inr (ih r)

theorem until_slice (hY : ∀ o r, Fires o r → S.yields o = true) {p : Program S α} (w : W)
    (hp : Until Fires Fails p) :
    (∃ o w', performed h p w = some (o, w') ∧ Fires o (h o w').1) ∨
      Until Fires Fails (slice h p w).1 := by
  induction p generalizing w with
  | pure a => exact Or.inr hp
  | request o k ih =>
    rw [until_request] at hp
    cases hy : S.yields o with
    | true =>
      simp only [performed, slice, hy, if_true]
      exact (hp (h o w).1).imp (fun ho => ⟨o, w, rfl, ho⟩) id
    | false =>
      simp only [performed, slice, hy, Bool.false_eq_true, if_false]
      obtain ho | hk := hp (h o w).1
      · rw [hY o _ ho] at hy
        cases hy
      · exact ih _ _ hk

/-- A program that never fires returns only failures. -/
theorem returned_fails (hY : ∀ o r, Fires o r → S.yields o = true) (sched : List Nat)
    {c : Pool S W α} {i : Nat} (hu : ∀ p, c.threads[i]? = some p → Until Fires Fails p)
    (ha : c.Along h (fun _ o w => ¬ Fires o (h o w).1) sched) {a : α}
    (hi : (c.run h sched).returned i = some a) : Fails a := by
  induction sched generalizing c with
  | nil => exact until_pure.mp (hu _ (Pool.returned_iff.mp hi))
  | cons j sched ih =>
    refine ih (fun q hq => ?_) ha.2 hi
    obtain ⟨_, hq⟩ | ⟨p, rfl, hp, rfl⟩ := Pool.threads_step h c j i q hq
    · exact hu q hq
    · obtain ⟨o, w', he, hfires⟩ | hrest := until_slice hY c.world (hu p hp)
      · exact absurd hfires (ha.1 (o, w') ((Pool.event_of_some h hp).trans he))
      · exact hrest

/-- All threads but `i` have yet to fire, and `i` too unless the resource is
spent already. -/
def FiredBy (Spent : W → Prop) (Fires : (o : S.Op) → S.Reply o → Prop) (Fails : α → Prop)
    (c : Pool S W α) (i : Nat) : Prop :=
  (∀ j q, j ≠ i → c.threads[j]? = some q → Until Fires Fails q) ∧
    (Spent c.world ∨ ∀ q, c.threads[i]? = some q → Until Fires Fails q)

variable {D : Discipline h} {Posts : Nat → α → W → Prop} {Spent : W → Prop}

theorem firedBy_step (hGR : ∀ {v w}, D.Guar v w → D.Rely v w)
    (hS : ∀ {v w}, D.Rely v w → Spent v → Spent w)
    (hY : ∀ o r, Fires o r → S.yields o = true)
    (hF : ∀ o w, D.Inv w → D.Guard w o → Fires o (h o w).1 → Spent (h o w).2)
    {c : Pool S W α} (hc : Kept D Posts c) (i k : Nat) (hi : FiredBy Spent Fires Fails c i)
    (ha : ∀ o w, c.event h k = some (o, w) → Fires o (h o w).1 → ¬ Spent w) :
    ∃ i', FiredBy Spent Fires Fails (c.step h k) i' := by
  have hworld : Spent c.world → Spent (c.step h k).world := hS (kept_step hGR hc k).2
  obtain ⟨hothers, hself⟩ := hi
  cases hp : c.threads[k]? with
  | none => exact ⟨i, by rw [Pool.step_of_none h hp]; exact ⟨hothers, hself⟩⟩
  | some p =>
    have hG := hc.settled k p hp _ (D.rely_refl _) hc.inv
    have hsl := fun hu : Until Fires Fails p => until_slice (h := h) hY c.world hu
    by_cases hu : Until Fires Fails p
    · obtain ⟨o, w', he, ho⟩ | hu' := hsl hu
      · obtain ⟨_, hI', hg, hGd, hw⟩ := performed_guarded hc.inv hG he
        have hfresh : ¬ Spent w' := ha o w' (by rw [Pool.event_of_some h hp, he]) ho
        have hall : ∀ (j : Nat) (q : Program S α), c.threads[j]? = some q → Until Fires Fails q := by
          intro j q hq
          by_cases hj : j = i
          · subst hj
            exact hself.resolve_left (fun hs => hfresh (hS (hGR hg) hs)) q hq
          · exact hothers j q hj hq
        refine ⟨k, fun j q hj hq => ?_, Or.inl ?_⟩
        · obtain ⟨_, hq⟩ | ⟨_, rfl, _, _⟩ := Pool.threads_step h c k j q hq
          · exact hall j q hq
          · exact absurd rfl hj
        · rw [Pool.step_of_some h hp]
          change Spent (slice h p c.world).2
          rw [hw]
          exact hF o w' hI' hGd ho
      · refine ⟨i, fun j q hj hq => ?_, hself.imp hworld fun hs q hq => ?_⟩
        · obtain ⟨_, hq⟩ | ⟨p', rfl, hp', rfl⟩ := Pool.threads_step h c k j q hq
          · exact hothers j q hj hq
          · rw [hp] at hp'
            cases hp'
            exact hu'
        · obtain ⟨_, hq⟩ | ⟨p', rfl, hp', rfl⟩ := Pool.threads_step h c k i q hq
          · exact hs q hq
          · rw [hp] at hp'
            cases hp'
            exact hu'
    · have hki : k = i := by
        by_contra hne
        exact hu (hothers k p hne hp)
      subst hki
      refine ⟨k, fun j q hj hq => ?_, Or.inl (hworld (hself.resolve_right fun hs => hu (hs p hp)))⟩
      obtain ⟨_, hq⟩ | ⟨_, rfl, _, _⟩ := Pool.threads_step h c k j q hq
      · exact hothers j q hj hq
      · exact absurd rfl hj

theorem firedBy_run (hGR : ∀ {v w}, D.Guar v w → D.Rely v w)
    (hS : ∀ {v w}, D.Rely v w → Spent v → Spent w)
    (hY : ∀ o r, Fires o r → S.yields o = true)
    (hF : ∀ o w, D.Inv w → D.Guard w o → Fires o (h o w).1 → Spent (h o w).2)
    (sched : List Nat) {c : Pool S W α} (hc : Kept D Posts c) (i : Nat)
    (hi : FiredBy Spent Fires Fails c i)
    (ha : c.Along h (fun _ o w => Fires o (h o w).1 → ¬ Spent w) sched) :
    ∃ i', FiredBy Spent Fires Fails (c.run h sched) i' := by
  induction sched generalizing c i with
  | nil => exact ⟨i, hi⟩
  | cons k sched ih =>
    obtain ⟨i', hi'⟩ := firedBy_step hGR hS hY hF hc i k hi fun o w he => ha.1 (o, w) he
    exact ih (kept_step hGR hc k).1 i' hi' ha.2

/-- Programs that fail unless they fire, on a resource that firing spends for
good: if nothing fires on a spent resource, at most one program succeeds. -/
theorem at_most_once (hGR : ∀ {v w}, D.Guar v w → D.Rely v w)
    (hS : ∀ {v w}, D.Rely v w → Spent v → Spent w)
    (hY : ∀ o r, Fires o r → S.yields o = true)
    (hF : ∀ o w, D.Inv w → D.Guard w o → Fires o (h o w).1 → Spent (h o w).2)
    (sched : List Nat) {c : Pool S W α} (hc : Kept D Posts c)
    (hu : ∀ (i : Nat) (q : Program S α), c.threads[i]? = some q → Until Fires Fails q)
    (ha : c.Along h (fun _ o w => Fires o (h o w).1 → ¬ Spent w) sched) {i j : Nat} {a b : α}
    (hi : (c.run h sched).returned i = some a) (hia : ¬ Fails a)
    (hj : (c.run h sched).returned j = some b) (hjb : ¬ Fails b) : i = j := by
  rw [Pool.returned_iff] at hi hj
  obtain ⟨k, hk, _⟩ := firedBy_run hGR hS hY hF sched hc 0
    ⟨fun j q _ => hu j q, Or.inr fun q => hu 0 q⟩ ha
  have hik : i = k := by
    by_contra hne
    exact hia (until_pure.mp (hk i _ hne hi))
  have hjk : j = k := by
    by_contra hne
    exact hjb (until_pure.mp (hk j _ hne hj))
  exact hik.trans hjk.symm

end RivicQ.Lib.SingleUse
