import RivicQ.Lib.Pools

namespace RivicQ.Lib.Disciplines

open RivicQ.Lib.Programs RivicQ.Lib.Pools

variable {S : Signature} {W α β : Type} {h : Handler S W}

/-- What the programs sharing a world owe each other. A yielding request is made
only where `Guard` allows it; then it keeps `Inv` and moves the world along
`Guar`. Between two yielding requests of a program the world moves along
`Rely`. -/
structure Discipline (h : Handler S W) where
  Inv : W → Prop
  Rely : W → W → Prop
  Guar : W → W → Prop
  Guard : W → S.Op → Prop
  rely_refl : ∀ w, Rely w w
  rely_trans : ∀ {u v w}, Rely u v → Rely v w → Rely u w
  guar_refl : ∀ w, Guar w w
  guar_trans : ∀ {u v w}, Guar u v → Guar v w → Guar u w
  keeps_local : ∀ o w, S.yields o = false → Inv w → Inv (h o w).2 ∧ Guar w (h o w).2
  keeps : ∀ o w, S.yields o = true → Inv w → Guard w o → Inv (h o w).2 ∧ Guar w (h o w).2

namespace Discipline

/-- A discipline with more to keep: `I` holds throughout, every request moves the
world along `R` too, and `G` is asked of the yielding ones. -/
def extend (D : Discipline h) (I : W → Prop) (R : W → W → Prop) (G : W → S.Op → Prop)
    (refl : ∀ w, R w w) (trans : ∀ {u v w}, R u v → R v w → R u w)
    (keeps_local : ∀ o w, S.yields o = false → D.Inv w → I w → I (h o w).2 ∧ R w (h o w).2)
    (keeps : ∀ o w, S.yields o = true → D.Inv w → I w → D.Guard w o → G w o →
      I (h o w).2 ∧ R w (h o w).2) : Discipline h where
  Inv := fun w => D.Inv w ∧ I w
  Rely := fun v w => D.Rely v w ∧ R v w
  Guar := fun v w => D.Guar v w ∧ R v w
  Guard := fun w o => D.Guard w o ∧ G w o
  rely_refl := fun w => ⟨D.rely_refl w, refl w⟩
  rely_trans := fun huv hvw => ⟨D.rely_trans huv.1 hvw.1, trans huv.2 hvw.2⟩
  guar_refl := fun w => ⟨D.guar_refl w, refl w⟩
  guar_trans := fun huv hvw => ⟨D.guar_trans huv.1 hvw.1, trans huv.2 hvw.2⟩
  keeps_local := fun o w hy hw =>
    have hD := D.keeps_local o w hy hw.1
    have hE := keeps_local o w hy hw.1 hw.2
    ⟨⟨hD.1, hE.1⟩, hD.2, hE.2⟩
  keeps := fun o w hy hw hG =>
    have hD := D.keeps o w hy hw.1 hG.1
    have hE := keeps o w hy hw.1 hw.2 hG.1 hG.2
    ⟨⟨hD.1, hE.1⟩, hD.2, hE.2⟩

/-- The discipline that asks `G` of the yielding requests as well. -/
def asking (D : Discipline h) (G : W → S.Op → Prop) : Discipline h :=
  D.extend (fun _ => True) (fun _ _ => True) G (fun _ => trivial) (fun _ _ => trivial)
    (fun _ _ _ _ _ => ⟨trivial, trivial⟩) (fun _ _ _ _ _ _ _ => ⟨trivial, trivial⟩)

/-- The discipline of a program beside which nothing runs. -/
def alone (D : Discipline h) : Discipline h where
  Inv := D.Inv
  Rely := Eq
  Guar := D.Guar
  Guard := D.Guard
  rely_refl := fun _ => rfl
  rely_trans := fun huv hvw => huv.trans hvw
  guar_refl := D.guar_refl
  guar_trans := D.guar_trans
  keeps_local := D.keeps_local
  keeps := D.keeps

end Discipline

/-- From world `w` the program makes only guarded requests, whatever the others
do, and whatever it returns satisfies `Post` from then on. -/
def Guarded (D : Discipline h) (Post : α → W → Prop) : Program S α → W → Prop
  | .pure a, w => ∀ w', D.Rely w w' → D.Inv w' → Post a w'
  | .request o k, w =>
    if S.yields o then
      D.Guard w o ∧ ∀ w', D.Rely (h o w).2 w' → D.Inv w' → Guarded D Post (k (h o w).1) w'
    else Guarded D Post (k (h o w).1) (h o w).2

def Settled (D : Discipline h) (Post : α → W → Prop) (p : Program S α) (w : W) : Prop :=
  ∀ w', D.Rely w w' → D.Inv w' → Guarded D Post p w'

variable {D : Discipline h} {Post : α → W → Prop}

theorem guarded_pure {a : α} {w : W} :
    Guarded D Post (.pure a) w ↔ ∀ w', D.Rely w w' → D.Inv w' → Post a w' :=
  Iff.rfl

theorem guarded_yield {o : S.Op} {k : S.Reply o → Program S α} {w : W} (hy : S.yields o = true) :
    Guarded D Post (.request o k) w ↔
      D.Guard w o ∧ Settled D Post (k (h o w).1) (h o w).2 := by
  simp only [Guarded, hy, if_true, Settled]

theorem guarded_local {o : S.Op} {k : S.Reply o → Program S α} {w : W} (hy : S.yields o = false) :
    Guarded D Post (.request o k) w ↔ Guarded D Post (k (h o w).1) (h o w).2 := by
  simp only [Guarded, hy, Bool.false_eq_true, if_false]

attribute [irreducible] Guarded

theorem guarded_mono {Post' : α → W → Prop} (hP : ∀ a w, D.Inv w → Post a w → Post' a w)
    {p : Program S α} {w : W} (hp : Guarded D Post p w) : Guarded D Post' p w := by
  induction p generalizing w with
  | pure a =>
    rw [guarded_pure] at hp ⊢
    exact fun w' hw hi => hP a w' hi (hp w' hw hi)
  | request o k ih =>
    cases hy : S.yields o with
    | true =>
      rw [guarded_yield hy] at hp ⊢
      exact ⟨hp.1, fun w' hw hi => ih _ (hp.2 w' hw hi)⟩
    | false =>
      rw [guarded_local hy] at hp ⊢
      exact ih _ hp

theorem guarded_bind {p : Program S α} {f : α → Program S β} {Post' : β → W → Prop} {w : W}
    (hI : D.Inv w) (hp : Guarded D (fun a w' => Guarded D Post' (f a) w') p w) :
    Guarded D Post' (p.bind f) w := by
  induction p generalizing w with
  | pure a => exact guarded_pure.mp hp w (D.rely_refl w) hI
  | request o k ih =>
    rw [Program.request_bind]
    cases hy : S.yields o with
    | true =>
      rw [guarded_yield hy] at hp ⊢
      exact ⟨hp.1, fun w' hw hi => ih _ hi (hp.2 w' hw hi)⟩
    | false =>
      rw [guarded_local hy] at hp ⊢
      exact ih _ (D.keeps_local o w hy hI).1 hp

/-- A program that makes only requests allowed everywhere is guarded. -/
def Uses (Allowed : S.Op → Prop) : Program S α → Prop
  | .pure _ => True
  | .request o k => Allowed o ∧ ∀ r, Uses Allowed (k r)

theorem uses_pure {Allowed : S.Op → Prop} (a : α) : Uses Allowed (.pure a : Program S α) :=
  True.intro

theorem uses_request {Allowed : S.Op → Prop} {o : S.Op} {k : S.Reply o → Program S α} :
    Uses Allowed (.request o k) ↔ Allowed o ∧ ∀ r, Uses Allowed (k r) := Iff.rfl

attribute [irreducible] Uses

theorem uses_bind {Allowed : S.Op → Prop} {p : Program S α} {f : α → Program S β}
    (hp : Uses Allowed p) (hf : ∀ a, Uses Allowed (f a)) : Uses Allowed (p.bind f) := by
  induction p with
  | pure a => exact hf a
  | request o k ih =>
    rw [uses_request] at hp
    exact uses_request.mpr ⟨hp.1, fun r => ih r (hp.2 r)⟩

theorem uses_mono {Allowed Allowed' : S.Op → Prop} (h : ∀ o, Allowed o → Allowed' o)
    {p : Program S α} (hp : Uses Allowed p) : Uses Allowed' p := by
  induction p with
  | pure a => exact uses_pure a
  | request o k ih =>
    rw [uses_request] at hp
    exact uses_request.mpr ⟨h o hp.1, fun r => ih r (hp.2 r)⟩

theorem uses_slice {Allowed : S.Op → Prop} {p : Program S α} (w : W) (hp : Uses Allowed p) :
    Uses Allowed (slice h p w).1 := by
  induction p generalizing w with
  | pure a => exact hp
  | request o k ih =>
    rw [uses_request] at hp
    cases hy : S.yields o with
    | true =>
      simp only [slice, hy, if_true]
      exact hp.2 _
    | false =>
      simp only [slice, hy, Bool.false_eq_true, if_false]
      exact ih _ _ (hp.2 _)

theorem uses_performed {Allowed : S.Op → Prop} {p : Program S α} {w w' : W} {o : S.Op}
    (hp : Uses Allowed p) (he : performed h p w = some (o, w')) : Allowed o := by
  induction p generalizing w with
  | pure a => cases he
  | request o' k ih =>
    rw [uses_request] at hp
    cases hy : S.yields o' with
    | true =>
      simp only [performed, hy, if_true, Option.some.injEq, Prod.mk.injEq] at he
      exact he.1 ▸ hp.1
    | false =>
      simp only [performed, hy, Bool.false_eq_true, if_false] at he
      exact ih _ (hp.2 _) he

/-- A program guarded under one discipline is guarded under a stricter one whose
guard asks nothing more of the requests the program makes. -/
theorem guarded_transfer {D' : Discipline h} {Allowed : S.Op → Prop}
    (hI : ∀ w, D'.Inv w → D.Inv w) (hR : ∀ {v w}, D'.Rely v w → D.Rely v w)
    (hG : ∀ o w, Allowed o → D'.Inv w → D.Guard w o → D'.Guard w o)
    {p : Program S α} {w : W} (hw : D'.Inv w) (hu : Uses Allowed p) (hp : Guarded D Post p w) :
    Guarded D' Post p w := by
  induction p generalizing w with
  | pure a =>
    rw [guarded_pure] at hp ⊢
    exact fun w' hr hi => hp w' (hR hr) (hI w' hi)
  | request o k ih =>
    rw [uses_request] at hu
    cases hy : S.yields o with
    | true =>
      rw [guarded_yield hy] at hp ⊢
      exact ⟨hG o w hu.1 hw hp.1, fun w' hr hi => ih _ hi (hu.2 _) (hp.2 w' (hR hr) (hI w' hi))⟩
    | false =>
      rw [guarded_local hy] at hp ⊢
      exact ih _ (D'.keeps_local o w hy hw).1 (hu.2 _) hp

/-- Guarded from every world the invariant admits. -/
structure Conducts (D : Discipline h) (p : Program S α) : Prop where
  guarded : ∀ w, D.Inv w → Guarded D (fun _ _ => True) p w

theorem conducts_pure (a : α) : Conducts D (.pure a) :=
  ⟨fun _ _ => guarded_pure.mpr fun _ _ _ => trivial⟩

theorem conducts_request {o : S.Op} {k : S.Reply o → Program S α}
    (ho : ∀ w, D.Inv w → S.yields o = true → D.Guard w o) (hk : ∀ r, Conducts D (k r)) :
    Conducts D (.request o k) := by
  refine ⟨fun w hw => ?_⟩
  cases hy : S.yields o with
  | true =>
    rw [guarded_yield hy]
    exact ⟨ho w hw hy, fun w' _ hw' => (hk _).guarded w' hw'⟩
  | false =>
    rw [guarded_local hy]
    exact (hk _).guarded _ (D.keeps_local o w hy hw).1

theorem conducts_bind {p : Program S α} {f : α → Program S β} (hp : Conducts D p)
    (hf : ∀ a, Conducts D (f a)) : Conducts D (p.bind f) := by
  refine ⟨fun w hw => guarded_bind hw ?_⟩
  exact guarded_mono (fun a w' hw' _ => (hf a).guarded w' hw') (hp.guarded w hw)

/-- The serial rule: run alone, a guarded program ends in its postcondition. -/
theorem run_guarded {p : Program S α} {w : W} (hI : D.Inv w) (hp : Guarded D Post p w) :
    D.Inv (run h p w).2 ∧ D.Guar w (run h p w).2 ∧ Post (run h p w).1 (run h p w).2 := by
  induction p generalizing w with
  | pure a => exact ⟨hI, D.guar_refl w, guarded_pure.mp hp w (D.rely_refl w) hI⟩
  | request o k ih =>
    rw [run_request]
    cases hy : S.yields o with
    | true =>
      rw [guarded_yield hy] at hp
      obtain ⟨hI', hg⟩ := D.keeps o w hy hI hp.1
      obtain ⟨hI'', hg', hpost⟩ := ih _ hI' (hp.2 _ (D.rely_refl _) hI')
      exact ⟨hI'', D.guar_trans hg hg', hpost⟩
    | false =>
      rw [guarded_local hy] at hp
      obtain ⟨hI', hg⟩ := D.keeps_local o w hy hI
      obtain ⟨hI'', hg', hpost⟩ := ih _ hI' hp
      exact ⟨hI'', D.guar_trans hg hg', hpost⟩

theorem slice_guarded {p : Program S α} {w : W} (hI : D.Inv w) (hp : Guarded D Post p w) :
    D.Inv (slice h p w).2 ∧ D.Guar w (slice h p w).2 ∧
      Settled D Post (slice h p w).1 (slice h p w).2 := by
  induction p generalizing w with
  | pure a =>
    refine ⟨hI, D.guar_refl w, fun w' hw _ => guarded_pure.mpr fun w'' hw' hi => ?_⟩
    exact guarded_pure.mp hp w'' (D.rely_trans hw hw') hi
  | request o k ih =>
    cases hy : S.yields o with
    | true =>
      rw [guarded_yield hy] at hp
      obtain ⟨hI', hg⟩ := D.keeps o w hy hI hp.1
      simpa only [slice, hy, if_true] using ⟨hI', hg, hp.2⟩
    | false =>
      rw [guarded_local hy] at hp
      obtain ⟨hI', hg⟩ := D.keeps_local o w hy hI
      obtain ⟨hI'', hg', hs⟩ := ih _ hI' hp
      simpa only [slice, hy, Bool.false_eq_true, if_false] using
        ⟨hI'', D.guar_trans hg hg', hs⟩

/-- A guarded program meets its next yielding request in a world that its own
local requests lead to, and there the guard holds. -/
theorem performed_guarded {p : Program S α} {w w' : W} {o : S.Op} (hI : D.Inv w)
    (hp : Guarded D Post p w) (he : performed h p w = some (o, w')) :
    S.yields o = true ∧ D.Inv w' ∧ D.Guar w w' ∧ D.Guard w' o ∧ (slice h p w).2 = (h o w').2 := by
  induction p generalizing w with
  | pure a => cases he
  | request o' k ih =>
    cases hy : S.yields o' with
    | true =>
      simp only [performed, hy, if_true, Option.some.injEq, Prod.mk.injEq] at he
      obtain ⟨rfl, rfl⟩ := he
      rw [guarded_yield hy] at hp
      exact ⟨hy, hI, D.guar_refl w, hp.1, by simp only [slice, hy, if_true]⟩
    | false =>
      simp only [performed, hy, Bool.false_eq_true, if_false] at he
      rw [guarded_local hy] at hp
      obtain ⟨hI', hg⟩ := D.keeps_local o' w hy hI
      obtain ⟨hy', hI'', hg', hG, hs⟩ := ih _ hI' hp he
      refine ⟨hy', hI'', D.guar_trans hg hg', hG, ?_⟩
      simpa only [slice, hy, Bool.false_eq_true, if_false] using hs

/-- The pool invariant: the world keeps its invariant and each thread is guarded
from here on. -/
structure Kept (D : Discipline h) (Post : Nat → α → W → Prop) (c : Pool S W α) : Prop where
  inv : D.Inv c.world
  settled : ∀ i p, c.threads[i]? = some p → Settled D (Post i) p c.world

theorem kept_of_conducts {c : Pool S W α} (hw : D.Inv c.world)
    (hc : ∀ p ∈ c.threads, Conducts D p) : Kept D (fun _ _ _ => True) c :=
  ⟨hw, fun _ p hp w' _ hw' => (hc p (List.mem_of_getElem? hp)).guarded w' hw'⟩

variable {Posts : Nat → α → W → Prop}

theorem kept_step (hGR : ∀ {v w}, D.Guar v w → D.Rely v w) {c : Pool S W α}
    (hc : Kept D Posts c) (i : Nat) :
    Kept D Posts (c.step h i) ∧ D.Rely c.world (c.step h i).world := by
  cases hp : c.threads[i]? with
  | none =>
    rw [Pool.step_of_none h hp]
    exact ⟨hc, D.rely_refl _⟩
  | some p =>
    obtain ⟨hI, hg, hs⟩ := slice_guarded hc.inv (hc.settled i p hp _ (D.rely_refl _) hc.inv)
    have hw : (c.step h i).world = (slice h p c.world).2 := by rw [Pool.step_of_some h hp]
    refine ⟨⟨hw ▸ hI, fun j q hq => ?_⟩, hw ▸ hGR hg⟩
    rw [hw]
    obtain ⟨_, hq⟩ | ⟨p', rfl, hp', rfl⟩ := Pool.threads_step h c i j q hq
    · exact fun w' hw' => hc.settled j q hq w' (D.rely_trans (hGR hg) hw')
    · rw [hp] at hp'
      cases hp'
      exact hs

/-- The concurrent rule: under every schedule a guarded pool stays guarded. -/
theorem kept_run (hGR : ∀ {v w}, D.Guar v w → D.Rely v w) {c : Pool S W α}
    (hc : Kept D Posts c) (sched : List Nat) :
    Kept D Posts (c.run h sched) ∧ D.Rely c.world (c.run h sched).world := by
  induction sched generalizing c with
  | nil => exact ⟨hc, D.rely_refl _⟩
  | cons i sched ih =>
    obtain ⟨hc', hr⟩ := kept_step hGR hc i
    obtain ⟨hc'', hr'⟩ := ih hc'
    exact ⟨hc'', D.rely_trans hr hr'⟩

/-- Along a run of a guarded pool the invariant and the guard hold of every
yielding request. -/
theorem along_of_kept (hGR : ∀ {v w}, D.Guar v w → D.Rely v w)
    {P Q : Pool S W α → S.Op → W → Prop}
    (hPQ : ∀ c o w, D.Inv w → D.Guard w o → P c o w → Q c o w) (sched : List Nat)
    {c : Pool S W α} (hc : Kept D Posts c) (hP : c.Along h P sched) : c.Along h Q sched := by
  induction sched generalizing c with
  | nil => trivial
  | cons i sched ih =>
    refine ⟨fun (o, w) he => ?_, ih (kept_step hGR hc i).1 hP.2⟩
    rw [Option.mem_def] at he
    cases hp : c.threads[i]? with
    | none => simp only [Pool.event, hp, Option.bind_none, reduceCtorEq] at he
    | some p =>
      have he' := he
      rw [Pool.event_of_some h hp] at he'
      have hG := hc.settled i p hp _ (D.rely_refl _) hc.inv
      obtain ⟨_, hI, _, hGd, _⟩ := performed_guarded hc.inv hG he'
      exact hPQ c o w hI hGd (hP.1 (o, w) he)

end RivicQ.Lib.Disciplines

namespace RivicQ.Lib.Closings

open RivicQ.Lib.Programs RivicQ.Lib.Pools RivicQ.Lib.Disciplines

variable {S : Signature} {W α β : Type} {h : Handler S W}

/-- The program returns only failures unless its last request fires. -/
def Closes (Fires : (o : S.Op) → S.Reply o → Prop) (Fails : α → Prop) : Program S α → Prop
  | .pure a => Fails a
  | .request o k => ∀ r, (Fires o r ∧ ∃ a, k r = .pure a) ∨ Closes Fires Fails (k r)

variable {Fires : (o : S.Op) → S.Reply o → Prop} {Fails : α → Prop}

theorem closes_pure {a : α} : Closes (S := S) Fires Fails (.pure a) ↔ Fails a := Iff.rfl

theorem closes_request {o : S.Op} {k : S.Reply o → Program S α} :
    Closes Fires Fails (.request o k) ↔
      ∀ r, (Fires o r ∧ ∃ a, k r = .pure a) ∨ Closes Fires Fails (k r) := Iff.rfl

attribute [irreducible] Closes

theorem closes_of_forall {p : Program S α} {f : α → Program S β} {Fails' : β → Prop}
    (hf : ∀ a, Closes Fires Fails' (f a)) : Closes Fires Fails' (p.bind f) := by
  induction p with
  | pure a => exact hf a
  | request o k ih => exact closes_request.mpr fun r => Or.inr (ih r)

/-- Wrapping up the result without a further request. -/
theorem closes_bind_pure {p : Program S α} {f : α → Program S β} {Fails' : β → Prop}
    (hp : Closes Fires Fails p) (hf : ∀ a, ∃ b, f a = .pure b ∧ (Fails a → Fails' b)) :
    Closes Fires Fails' (p.bind f) := by
  induction p with
  | pure a =>
    obtain ⟨b, hb, hfail⟩ := hf a
    rw [Program.pure_bind, hb]
    exact closes_pure.mpr (hfail (closes_pure.mp hp))
  | request o k ih =>
    refine closes_request.mpr fun r => ?_
    obtain ⟨hfire, a, ha⟩ | hk := closes_request.mp hp r
    · obtain ⟨b, hb, _⟩ := hf a
      exact Or.inl ⟨hfire, b, by rw [ha, Program.pure_bind, hb]⟩
    · exact Or.inr (ih r hk)

/-- One slice of a closing program: it goes on closing, or it has fired and
returned. -/
theorem closes_slice (hY : ∀ o r, Fires o r → S.yields o = true) {p : Program S α} (w : W)
    (hp : Closes Fires Fails p) :
    (∃ o w' a, performed h p w = some (o, w') ∧ Fires o (h o w').1 ∧ (slice h p w).1 = .pure a) ∨
      Closes Fires Fails (slice h p w).1 := by
  induction p generalizing w with
  | pure a => exact Or.inr hp
  | request o k ih =>
    rw [closes_request] at hp
    cases hy : S.yields o with
    | true =>
      simp only [performed, slice, hy, if_true]
      obtain ⟨hfire, a, ha⟩ | hk := hp (h o w).1
      · exact Or.inl ⟨o, w, a, rfl, hfire, ha⟩
      · exact Or.inr hk
    | false =>
      simp only [performed, slice, hy, Bool.false_eq_true, if_false]
      obtain ⟨hfire, _⟩ | hk := hp (h o w).1
      · rw [hY o _ hfire] at hy
        cases hy
      · exact ih _ _ hk

/-- Thread `i` is still closing under its own discipline, or it has succeeded and
the goal stands. -/
structure Closing (D D' : Discipline h) (Fires : (o : S.Op) → S.Reply o → Prop)
    (Fails : α → Prop) (Goal : W → Prop) (i : Nat) (c : Pool S W α) : Prop where
  kept : Kept D (fun _ _ _ => True) c
  closing : ∀ p, c.threads[i]? = some p →
    (Settled D' (fun _ _ => True) p c.world ∧ Closes Fires Fails p) ∨
      ∃ a, p = .pure a ∧ ¬ Fails a ∧ Goal c.world

variable {D D' : Discipline h} {Goal : W → Prop} {i : Nat}

/-- A thread that succeeds has just reached the goal, and from then on nobody
loses it. -/
theorem closing_step (hGR : ∀ {v w}, D.Guar v w → D.Rely v w)
    (hR : ∀ {v w}, D.Rely v w → D'.Rely v w) (hI : ∀ {w}, D.Inv w → D'.Inv w)
    (hY : ∀ o r, Fires o r → S.yields o = true)
    (hF : ∀ o w, D'.Inv w → D'.Guard w o → Fires o (h o w).1 → Goal (h o w).2)
    (hlocal : ∀ o w, S.yields o = false → Goal w → Goal (h o w).2)
    {c : Pool S W α} (hc : Closing D D' Fires Fails Goal i c) (j : Nat)
    (ha : ∀ o w, c.event h j = some (o, w) → D.Inv w → D.Guard w o →
      (∃ a, c.returned i = some a ∧ ¬ Fails a) → Goal w → Goal (h o w).2) :
    Closing D D' Fires Fails Goal i (c.step h j) := by
  obtain ⟨hkept, hrely⟩ := kept_step hGR hc.kept j
  refine ⟨hkept, fun q hq => ?_⟩
  obtain ⟨hne, hq⟩ | ⟨p, rfl, hp, rfl⟩ := Pool.threads_step h c j i q hq
  · obtain ⟨hs, hcl⟩ | ⟨a, rfl, hna, hgoal⟩ := hc.closing q hq
    · exact Or.inl ⟨fun w' hw' => hs w' (D'.rely_trans (hR hrely) hw'), hcl⟩
    · refine Or.inr ⟨a, rfl, hna, ?_⟩
      cases hp : c.threads[j]? with
      | none =>
        rw [Pool.step_of_none h hp]
        exact hgoal
      | some p =>
        have hret : c.returned i = some a := Pool.returned_iff.mpr hq
        have hG := hc.kept.settled j p hp _ (D.rely_refl _) hc.kept.inv
        rw [Pool.step_of_some h hp]
        refine slice_keeps hlocal (fun o w' he hw' => ?_) hgoal
        obtain ⟨_, hI', _, hGd, _⟩ := performed_guarded hc.kept.inv hG he
        exact ha o w' (by rw [Pool.event_of_some h hp, he]) hI' hGd ⟨a, hret, hna⟩ hw'
  · have hworld : (c.step h i).world = (slice h p c.world).2 := by rw [Pool.step_of_some h hp]
    obtain ⟨hs, hcl⟩ | ⟨a, rfl, hna, hgoal⟩ := hc.closing p hp
    · have hG := hs c.world (D'.rely_refl _) (hI hc.kept.inv)
      obtain ⟨_, _, hs'⟩ := slice_guarded (hI hc.kept.inv) hG
      obtain ⟨o, w', a, he, hfire, hpure⟩ | hcl' := closes_slice hY c.world hcl
      · by_cases hfail : Fails a
        · exact Or.inl ⟨hworld ▸ hs', by rw [hpure]; exact closes_pure.mpr hfail⟩
        · obtain ⟨_, hI', _, hGd, hw⟩ := performed_guarded (hI hc.kept.inv) hG he
          refine Or.inr ⟨a, hpure, hfail, ?_⟩
          rw [hworld, hw]
          exact hF o w' hI' hGd hfire
      · exact Or.inl ⟨hworld ▸ hs', hcl'⟩
    · exact Or.inr ⟨a, rfl, hna, by rw [hworld]; exact hgoal⟩

theorem closing_run {c : Pool S W α} (hc : Closing D D' Fires Fails Goal i c)
    (hGR : ∀ {v w}, D.Guar v w → D.Rely v w)
    (hR : ∀ {v w}, D.Rely v w → D'.Rely v w) (hI : ∀ {w}, D.Inv w → D'.Inv w)
    (hY : ∀ o r, Fires o r → S.yields o = true)
    (hF : ∀ o w, D'.Inv w → D'.Guard w o → Fires o (h o w).1 → Goal (h o w).2)
    (hlocal : ∀ o w, S.yields o = false → Goal w → Goal (h o w).2)
    {P : Pool S W α → S.Op → W → Prop}
    (hP : ∀ c o w, D.Inv w → D.Guard w o → P c o w →
      (∃ a, c.returned i = some a ∧ ¬ Fails a) → Goal w → Goal (h o w).2)
    (sched : List Nat) (ha : c.Along h P sched) : Closing D D' Fires Fails Goal i (c.run h sched) := by
  induction sched generalizing c with
  | nil => exact hc
  | cons j sched ih =>
    refine ih (closing_step hGR hR hI hY hF hlocal hc j fun o w he hw hG => ?_) ha.2
    exact hP c o w hw hG (ha.1 (o, w) he)

/-- Once the thread has succeeded, the goal stands. -/
theorem goal_of_closing {c : Pool S W α} (hc : Closing D D' Fires Fails Goal i c) {a : α}
    (h' : c.returned i = some a) (hna : ¬ Fails a) : Goal c.world := by
  obtain ⟨_, hcl⟩ | ⟨_, _, _, hgoal⟩ := hc.closing _ (Pool.returned_iff.mp h')
  · exact absurd (closes_pure.mp hcl) hna
  · exact hgoal

end RivicQ.Lib.Closings
