import RivicQ.Lib.Pools

namespace RivicQ.Lib.Cells

open RivicQ.Lib.Programs RivicQ.Lib.Pools

variable {S : Signature} {W V α β : Type}

/-- A value in the world that programs read, edit and write back. -/
structure Cell (S : Signature) (W V : Type) where
  value : W → Option V
  /-- What a reply tells of the value. -/
  read : (o : S.Op) → S.Reply o → Option V
  /-- What a request asks to be stored. -/
  write : S.Op → Option V
  accepted : (o : S.Op) → S.Reply o → Bool
  /-- What may come to be stored when a value is to be replaced by another. -/
  Stores : V → V → V → Prop

/-- How a world that serves a request where `Guard` holds treats the cell. -/
structure Lawful (h : Handler S W) (C : Cell S W V) (Fits : (o : S.Op) → S.Reply o → Prop)
    (Guard : S.Op → W → Prop) : Prop where
  fits : ∀ o w, (S.yields o = true → Guard o w) → Fits o (h o w).1
  value_local : ∀ o w, S.yields o = false → C.value (h o w).2 = C.value w
  read_local : ∀ o r, S.yields o = false → C.read o r = none
  write_local : ∀ o, S.yields o = false → C.write o = none
  read : ∀ o w v, Guard o w → C.read o (h o w).1 = some v → C.value w = some v
  keeps : ∀ o w v, Guard o w → C.value w = some v →
    (C.write o = none ∨ C.accepted o (h o w).1 = false) → C.value (h o w).2 = some v
  write : ∀ o w v u, Guard o w → C.value w = some v → C.write o = some u →
    C.accepted o (h o w).1 = true → ∃ v', C.Stores v u v' ∧ C.value (h o w).2 = some v'

/-- How far a program has got with the cell. -/
inductive Phase (V : Type) where
  | idle
  | holding (v : V)
  | done

variable (C : Cell S W V) (Fits : (o : S.Op) → S.Reply o → Prop) (E : V → V → Prop)

def Phase.next (φ : Phase V) (o : S.Op) (r : S.Reply o) : Phase V :=
  match C.write o with
  | some _ => if C.accepted o r then .done else .idle
  | none =>
    match C.read o r with
    | some v => .holding v
    | none => φ

/-- What is written is an edit of the value last read, and nothing is read afterwards. -/
structure Permits (φ : Phase V) (o : S.Op) : Prop where
  write : ∀ u, C.write o = some u → ∃ v, φ = .holding v ∧ E v u
  read : ∀ r v, C.read o r = some v → φ ≠ .done

/-- The program writes nothing but one edit of the value it has read, whatever it is told. -/
def Edits (Post : Phase V → α → Prop) : Program S α → Phase V → Prop
  | .pure a, φ => Post φ a
  | .request o k, φ => Permits C E φ o ∧ ∀ r, Fits o r → Edits Post (k r) (φ.next C o r)

variable {C Fits E} {Post : Phase V → α → Prop} {φ : Phase V} {p : Program S α}

theorem edits_pure {a : α} : Edits C Fits E Post (.pure a : Program S α) φ ↔ Post φ a := Iff.rfl

theorem edits_request {o : S.Op} {k : S.Reply o → Program S α} :
    Edits C Fits E Post (.request o k) φ ↔
      Permits C E φ o ∧ ∀ r, Fits o r → Edits C Fits E Post (k r) (φ.next C o r) := Iff.rfl

attribute [irreducible] Edits

theorem edits_mono {Post' : Phase V → α → Prop} (hpost : ∀ φ a, Post φ a → Post' φ a)
    (hp : Edits C Fits E Post p φ) : Edits C Fits E Post' p φ := by
  induction p generalizing φ with
  | pure a => exact edits_pure.mpr (hpost φ a (edits_pure.mp hp))
  | request o k ih =>
    rw [edits_request] at hp ⊢
    exact ⟨hp.1, fun r hr => ih r (hp.2 r hr)⟩

theorem edits_bind {Post' : Phase V → β → Prop} {f : α → Program S β}
    (hp : Edits C Fits E (fun φ a => Edits C Fits E Post' (f a) φ) p φ) :
    Edits C Fits E Post' (p.bind f) φ := by
  induction p generalizing φ with
  | pure a => exact edits_pure.mp hp
  | request o k ih =>
    rw [Program.request_bind, edits_request]
    rw [edits_request] at hp
    exact ⟨hp.1, fun r hr => ih r (hp.2 r hr)⟩

section Requests

variable {o : S.Op} {k : S.Reply o → Program S α}

/-- A request that has nothing to do with the cell. -/
theorem edits_other (hwrite : C.write o = none) (hread : ∀ r, C.read o r = none)
    (hk : ∀ r, Fits o r → Edits C Fits E Post (k r) φ) :
    Edits C Fits E Post (.request o k) φ := by
  refine edits_request.mpr ⟨⟨fun u hu => ?_, fun r v hv => ?_⟩, fun r hr => ?_⟩
  · rw [hwrite] at hu
    cases hu
  · rw [hread] at hv
    cases hv
  · rw [Phase.next, hwrite]
    dsimp only
    rw [hread]
    exact hk r hr

theorem edits_read (hwrite : C.write o = none)
    (hfound : ∀ r v, Fits o r → C.read o r = some v → Edits C Fits E Post (k r) (.holding v))
    (hmissed : ∀ r, C.read o r = none → Edits C Fits E Post (k r) .idle) :
    Edits C Fits E Post (.request o k) .idle := by
  refine edits_request.mpr ⟨⟨fun u hu => ?_, fun r v _ => by simp⟩, fun r hr => ?_⟩
  · rw [hwrite] at hu
    cases hu
  · rw [Phase.next, hwrite]
    dsimp only
    cases hread : C.read o r with
    | none => exact hmissed r hread
    | some v => exact hfound r v hr hread

theorem edits_write {u v : V} (hwrite : C.write o = some u) (hread : ∀ r, C.read o r = none)
    (hedit : E v u)
    (hdone : ∀ r, C.accepted o r = true → Edits C Fits E Post (k r) .done)
    (hrefused : ∀ r, C.accepted o r = false → Edits C Fits E Post (k r) .idle) :
    Edits C Fits E Post (.request o k) (.holding v) := by
  refine edits_request.mpr ⟨⟨fun u' hu' => ?_, fun r v hv => ?_⟩, fun r _ => ?_⟩
  · obtain rfl := Option.some.inj (hwrite.symm.trans hu')
    exact ⟨v, rfl, hedit⟩
  · rw [hread] at hv
    cases hv
  · rw [Phase.next, hwrite]
    dsimp only
    cases hr : C.accepted o r with
    | true => exact hdone r hr
    | false => exact hrefused r hr

end Requests

section Slices

variable {h : Handler S W} {Guard : S.Op → W → Prop}

theorem next_local (hC : Lawful h C Fits Guard) {o : S.Op} (hy : S.yields o = false)
    (r : S.Reply o) : φ.next C o r = φ := by
  rw [Phase.next, hC.write_local o hy]
  dsimp only
  rw [hC.read_local o r hy]

/-- A slice leaves the cell to the one request that others can see. -/
theorem edits_slice (hC : Lawful h C Fits Guard) {w : W} (hp : Edits C Fits E Post p φ)
    (hG : ∀ o w', performed h p w = some (o, w') → Guard o w') :
    (performed h p w = none ∧ C.value (slice h p w).2 = C.value w ∧
      Edits C Fits E Post (slice h p w).1 φ) ∨
    ∃ o w', performed h p w = some (o, w') ∧ C.value w' = C.value w ∧ Permits C E φ o ∧
      (slice h p w).2 = (h o w').2 ∧
      Edits C Fits E Post (slice h p w).1 (φ.next C o (h o w').1) := by
  induction p generalizing w with
  | pure a => exact Or.inl ⟨rfl, rfl, hp⟩
  | request o k ih =>
    rw [edits_request] at hp
    cases hy : S.yields o with
    | true =>
      simp only [slice, performed, hy, if_true] at hG ⊢
      exact Or.inr ⟨o, w, rfl, rfl, hp.1, rfl, hp.2 _ (hC.fits o w fun _ => hG o w rfl)⟩
    | false =>
      simp only [slice, performed, hy, Bool.false_eq_true, if_false] at hG ⊢
      have hfits := hC.fits o w fun hy' => by rw [hy] at hy'; cases hy'
      have hk := hp.2 _ hfits
      rw [next_local hC hy] at hk
      have hvalue := hC.value_local o w hy
      obtain ⟨hnone, hv, hs⟩ | ⟨o', w', he, hv, hs⟩ := ih (h o w).1 hk hG
      · exact Or.inl ⟨hnone, hv.trans hvalue, hs⟩
      · exact Or.inr ⟨o', w', he, hv.trans hvalue, hs⟩

end Slices

/-- The edits of some programs, made one after the other. -/
def Led (C : Cell S W V) (E : Nat → V → V → Prop) : List Nat → V → V → Prop
  | [], v, v' => v' = v
  | i :: order, v, v' => ∃ u m, E i v u ∧ C.Stores v u m ∧ Led C E order m v'

theorem led_concat {E : Nat → V → V → Prop} {order : List Nat} {i : Nat} {v m u v' : V}
    (hled : Led C E order v m) (hedit : E i m u) (hstores : C.Stores m u v') :
    Led C E (order ++ [i]) v v' := by
  induction order generalizing v with
  | nil =>
    obtain rfl : m = v := hled
    exact ⟨u, v', hedit, hstores, rfl⟩
  | cons j order ih =>
    obtain ⟨u', m', hedit', hstores', hrest⟩ := hled
    exact ⟨u', m', hedit', hstores', ih hrest⟩

/-- The threads that have read the cell since it was last written. -/
def upToDate (C : Cell S W V) (fresh : List Nat) (i : Nat) (o : S.Op) (r : S.Reply o) : List Nat :=
  if (C.write o).isSome && C.accepted o r then []
  else if (C.read o r).isSome then i :: fresh
  else fresh

def freshAfter (h : Handler S W) (C : Cell S W V) (fresh : List Nat) (c : Pool S W α) (i : Nat) :
    List Nat :=
  match c.event h i with
  | none => fresh
  | some (o, w) => upToDate C fresh i o (h o w).1

/-- Along a run, whoever writes the cell has read it since it was last written. -/
def Undisturbed (h : Handler S W) (C : Cell S W V) : List Nat → Pool S W α → List Nat → Prop
  | _, _, [] => True
  | fresh, c, i :: sched =>
    (∀ e ∈ c.event h i, (C.write e.1).isSome → i ∈ fresh) ∧
      Undisturbed h C (freshAfter h C fresh c i) (c.step h i) sched

instance instDecidableUndisturbed (h : Handler S W) (C : Cell S W V) :
    ∀ (sched fresh : List Nat) (c : Pool S W α), Decidable (Undisturbed h C fresh c sched)
  | [], _, _ => isTrue trivial
  | i :: sched, fresh, c =>
    have := instDecidableUndisturbed h C sched (freshAfter h C fresh c i) (c.step h i)
    inferInstanceAs (Decidable ((∀ e ∈ c.event h i, (C.write e.1).isSome → i ∈ fresh) ∧
      Undisturbed h C (freshAfter h C fresh c i) (c.step h i) sched))

/-- A thread in some phase: what it holds is the value as long as it is up to date, and it is
done if its edit has been made. -/
structure Abides (C : Cell S W V) (Fits : (o : S.Op) → S.Reply o → Prop)
    (E : Nat → V → V → Prop) (Post : Nat → Phase V → α → Prop) (fresh order : List Nat)
    (value : Option V) (i : Nat) (p : Program S α) (φ : Phase V) : Prop where
  edits : Edits C Fits (E i) (Post i) p φ
  holds : ∀ v, φ = .holding v → i ∈ fresh → value = some v
  done : φ = .done ↔ i ∈ order

/-- The cell has come from its first value by the edits made so far, in their order. -/
structure Ordered (C : Cell S W V) (Fits : (o : S.Op) → S.Reply o → Prop)
    (E : Nat → V → V → Prop) (Post : Nat → Phase V → α → Prop) (first : V)
    (fresh order : List Nat) (c : Pool S W α) : Prop where
  threads : ∀ i p, c.threads[i]? = some p →
    ∃ φ, Abides C Fits E Post fresh order (C.value c.world) i p φ
  bounded : ∀ i ∈ order, i < c.threads.length
  nodup : order.Nodup
  led : ∃ v, C.value c.world = some v ∧ Led C E order first v

section Runs

variable {h : Handler S W} {Guard : S.Op → W → Prop} {E : Nat → V → V → Prop}
  {Post : Nat → Phase V → α → Prop} {first : V} {fresh order : List Nat} {c : Pool S W α}

theorem ordered_set (hc : Ordered C Fits E Post first fresh order c) {i : Nat}
    {p q : Program S α} {w : W} {fresh' order' : List Nat} (hp : c.threads[i]? = some p)
    (hself : ∃ φ, Abides C Fits E Post fresh' order' (C.value w) i q φ)
    (hothers : ∀ j q φ, j ≠ i → Abides C Fits E Post fresh order (C.value c.world) j q φ →
      Abides C Fits E Post fresh' order' (C.value w) j q φ)
    (hmem : ∀ j ∈ order', j ∈ order ∨ j = i) (hnodup : order'.Nodup)
    (hled : ∃ v, C.value w = some v ∧ Led C E order' first v) :
    Ordered C Fits E Post first fresh' order' ⟨w, c.threads.set i q⟩ := by
  have hi : i < c.threads.length := (List.getElem?_eq_some_iff.mp hp).1
  refine ⟨fun j q' hq' => ?_, fun j hj => ?_, hnodup, hled⟩
  · by_cases hj : j = i
    · subst hj
      rw [List.getElem?_set_self hi] at hq'
      obtain rfl := Option.some.inj hq'
      exact hself
    · rw [List.getElem?_set_ne (Ne.symm hj)] at hq'
      obtain ⟨φ, hφ⟩ := hc.threads j q' hq'
      exact ⟨φ, hothers j q' φ hj hφ⟩
  · rw [List.length_set]
    obtain hj | rfl := hmem j hj
    · exact hc.bounded j hj
    · exact hi

/-- A step that leaves the cell as it is. -/
theorem ordered_same (hc : Ordered C Fits E Post first fresh order c) {i : Nat}
    {p q : Program S α} {w : W} {fresh' : List Nat} (hp : c.threads[i]? = some p)
    (hvalue : C.value w = C.value c.world) (hfresh : ∀ j ∈ fresh', j ∈ fresh ∨ j = i)
    (hself : ∃ φ, Abides C Fits E Post fresh' order (C.value c.world) i q φ) :
    Ordered C Fits E Post first fresh' order ⟨w, c.threads.set i q⟩ := by
  refine ordered_set hc hp (hvalue ▸ hself) (fun j q φ hj hφ => ?_) (fun j hj => Or.inl hj)
    hc.nodup (hvalue ▸ hc.led)
  rw [hvalue]
  exact ⟨hφ.edits, fun v hv hmem => hφ.holds v hv ((hfresh j hmem).resolve_right hj), hφ.done⟩

theorem upToDate_read {i : Nat} {o : S.Op} {r : S.Reply o}
    (h : ((C.write o).isSome && C.accepted o r) = false) :
    upToDate C fresh i o r = if (C.read o r).isSome then i :: fresh else fresh := by
  rw [upToDate, h]
  exact if_neg Bool.false_ne_true

theorem mem_upToDate {i j : Nat} {o : S.Op} {r : S.Reply o} (hj : j ∈ upToDate C fresh i o r) :
    j ∈ fresh ∨ j = i := by
  unfold upToDate at hj
  split at hj
  · cases hj
  split at hj
  · exact (List.mem_cons.mp hj).symm
  · exact Or.inl hj

/-- A request that does not change the cell, in the phase it finds its thread in. -/
theorem abides_next (hC : Lawful h C Fits Guard) {i : Nat} {p q : Program S α} {φ : Phase V}
    {value : Option V} {o : S.Op} {w : W} (hG : Guard o w) (hvalue : C.value w = value)
    (hφ : Abides C Fits E Post fresh order value i p φ) (hpermits : Permits C (E i) φ o)
    (hsame : C.write o = none ∨ C.accepted o (h o w).1 = false)
    (hq : Edits C Fits (E i) (Post i) q (φ.next C o (h o w).1)) :
    Abides C Fits E Post (upToDate C fresh i o (h o w).1) order value i q
      (φ.next C o (h o w).1) := by
  have hread' : ((C.write o).isSome && C.accepted o (h o w).1) = false := by
    obtain hnone | hrefused := hsame
    · rw [hnone]
      rfl
    · rw [hrefused, Bool.and_false]
  rw [upToDate_read hread']
  cases hwrite : C.write o with
  | some u =>
    have hrefused := hsame.resolve_left (by rw [hwrite]; simp)
    have hphase : φ.next C o (h o w).1 = .idle := by
      rw [Phase.next, hwrite]
      exact if_neg (by rw [hrefused]; exact Bool.false_ne_true)
    obtain ⟨v, hholding, _⟩ := hpermits.write u hwrite
    rw [hphase] at hq ⊢
    refine ⟨hq, by simp, ?_⟩
    rw [← hφ.done, hholding]
    simp
  | none =>
    cases hread : C.read o (h o w).1 with
    | none =>
      have hphase : φ.next C o (h o w).1 = φ := by
        rw [Phase.next, hwrite]
        dsimp only
        rw [hread]
      rw [hphase] at hq ⊢
      exact ⟨hq, hφ.holds, hφ.done⟩
    | some v =>
      have hphase : φ.next C o (h o w).1 = .holding v := by
        rw [Phase.next, hwrite]
        dsimp only
        rw [hread]
      rw [hphase] at hq ⊢
      refine ⟨hq, fun v' hv' _ => ?_, ?_⟩
      · cases hv'
        exact hvalue.symm.trans (hC.read o w v hG hread)
      · rw [← hφ.done]
        exact iff_of_false (by simp) (hpermits.read _ v hread)

theorem ordered_step (hC : Lawful h C Fits Guard) (hc : Ordered C Fits E Post first fresh order c)
    (i : Nat) (hG : ∀ e ∈ c.event h i, Guard e.1 e.2)
    (hfresh : ∀ e ∈ c.event h i, (C.write e.1).isSome → i ∈ fresh) :
    ∃ order', Ordered C Fits E Post first (freshAfter h C fresh c i) order' (c.step h i) := by
  cases hp : c.threads[i]? with
  | none =>
    have hevent : c.event h i = none := by rw [Pool.event, hp, Option.bind_none]
    rw [Pool.step_of_none h hp, freshAfter, hevent]
    exact ⟨order, hc⟩
  | some p =>
    obtain ⟨φ, hφ⟩ := hc.threads i p hp
    obtain ⟨v, hv, hled⟩ := hc.led
    rw [Pool.step_of_some h hp, freshAfter]
    rw [Pool.event_of_some h hp] at hG hfresh ⊢
    obtain ⟨hnone, hvalue, hq⟩ | ⟨o, w, he, hvalue, hpermits, hw, hq⟩ :=
      edits_slice hC hφ.edits fun o w he => hG (o, w) he
    · rw [hnone]
      exact ⟨order, ordered_same hc hp hvalue (fun j hj => Or.inl hj)
        ⟨φ, hq, hφ.holds, hφ.done⟩⟩
    have hGuard := hG (o, w) he
    rw [he]
    dsimp only
    by_cases hsame : C.write o = none ∨ C.accepted o (h o w).1 = false
    · refine ⟨order, ordered_same hc hp ?_ (fun j hj => mem_upToDate hj)
        ⟨_, abides_next hC hGuard hvalue hφ hpermits hsame hq⟩⟩
      rw [hw, hv]
      exact hC.keeps o w v hGuard (hvalue.trans hv) hsame
    · obtain ⟨hwrite, haccepted⟩ := not_or.mp hsame
      obtain ⟨u, hu⟩ := Option.ne_none_iff_exists'.mp hwrite
      rw [Bool.not_eq_false] at haccepted
      obtain ⟨v', hholding, hedit⟩ := hpermits.write u hu
      have hmem : i ∈ fresh := hfresh (o, w) he (by rw [hu]; rfl)
      -- what the thread holds is what is stored
      obtain rfl : v' = v := Option.some.inj ((hφ.holds v' hholding hmem).symm.trans hv)
      obtain ⟨m, hstores, hm⟩ := hC.write o w v' u hGuard (hvalue.trans hv) hu haccepted
      have hnew : i ∉ order := by
        rw [← hφ.done, hholding]
        simp
      have hfresh' : upToDate C fresh i o (h o w).1 = [] := by
        rw [upToDate, hu, haccepted]
        rfl
      have hphase : φ.next C o (h o w).1 = .done := by
        rw [Phase.next, hu]
        exact if_pos haccepted
      rw [hphase] at hq
      rw [hfresh']
      refine ⟨order ++ [i], ordered_set hc hp ⟨.done, hq, by simp, by simp⟩
        (fun j q φ' hj hφ' => ⟨hφ'.edits, by simp, ?_⟩) (fun j hj => ?_) ?_
        ⟨m, by rw [hw, hm], led_concat hled hedit hstores⟩⟩
      · rw [hφ'.done]
        simp [hj]
      · simpa using hj
      · rw [List.nodup_append]
        refine ⟨hc.nodup, by simp, ?_⟩
        intro a ha b hb hab
        rw [List.mem_singleton] at hb
        exact hnew (by rwa [hab, hb] at ha)

theorem ordered_run (hC : Lawful h C Fits Guard) (sched : List Nat)
    (hc : Ordered C Fits E Post first fresh order c)
    (hG : c.Along h (fun _ o w => Guard o w) sched) (hsched : Undisturbed h C fresh c sched) :
    ∃ fresh' order', Ordered C Fits E Post first fresh' order' (c.run h sched) := by
  induction sched generalizing c fresh order with
  | nil => exact ⟨fresh, order, hc⟩
  | cons i sched ih =>
    obtain ⟨order', hc'⟩ := ordered_step hC hc i hG.1 hsched.1
    exact ih hc' hG.2 hsched.2

end Runs

/-- Programs that each read a cell and write it back edited, where nobody writes it between
another's read and write, come to what some order of their edits makes of it. -/
theorem edits_in_order {h : Handler S W} {Guard : S.Op → W → Prop} {E : Nat → V → V → Prop}
    {Post : Nat → Phase V → α → Prop} {c : Pool S W α} {first : V} (sched : List Nat)
    (hC : Lawful h C Fits Guard) (hfirst : C.value c.world = some first)
    (hedits : ∀ i p, c.threads[i]? = some p → Edits C Fits (E i) (Post i) p .idle)
    (hG : c.Along h (fun _ o w => Guard o w) sched) (hsched : Undisturbed h C [] c sched) :
    ∃ order : List Nat, order.Nodup ∧ (∀ i ∈ order, i < c.threads.length) ∧
      (∀ i a, (c.run h sched).returned i = some a → ∃ φ, Post i φ a ∧ (φ = .done ↔ i ∈ order)) ∧
      ∃ v, C.value (c.run h sched).world = some v ∧ Led C E order first v := by
  have hstart : Ordered C Fits E Post first [] [] c := by
    refine ⟨fun i p hp => ⟨.idle, hedits i p hp, by simp, by simp⟩, by simp, List.nodup_nil, ?_⟩
    exact ⟨first, hfirst, rfl⟩
  obtain ⟨_, order, hrun⟩ := ordered_run hC sched hstart hG hsched
  refine ⟨order, hrun.nodup, fun i hi => ?_, fun i a ha => ?_, hrun.led⟩
  · rw [← Pool.length_run h c sched]
    exact hrun.bounded i hi
  obtain ⟨φ, hφ⟩ := hrun.threads i _ (Pool.returned_iff.mp ha)
  exact ⟨φ, edits_pure.mp hφ.edits, hφ.done⟩

end RivicQ.Lib.Cells
