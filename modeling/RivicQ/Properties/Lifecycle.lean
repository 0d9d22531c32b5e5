import RivicQ.Quantum.Providers

namespace RivicQ.Properties.Lifecycle

open RivicQ.Lib.Tables RivicQ.Lib.Projections RivicQ.Quantum.Providers

variable {F C : Type} {w : World F} {configs : Table C} {make : F → Option C → Made}
  {result : Provider → Option String} {name n : String} {i j : Provider} {names : List String}

/-- The provider is the live instance of some name. -/
def Live (w : World F) (i : Provider) : Prop :=
  ∃ name, w.registry.instances.lookup name = some i

/-- Every provider that was ever made is live, or has been closed. -/
def Kept (w : World F) : Prop := ∀ i < w.made, Live w i ∨ i ∈ w.closed

/-- The instances are providers of their own, and the names are in order. -/
structure Owned (w : World F) : Prop where
  live : ∀ {n i}, w.registry.instances.lookup n = some i → i < w.made ∧ i ∉ w.closed
  injective : ∀ {n m i}, w.registry.instances.lookup n = some i →
    w.registry.instances.lookup m = some i → n = m
  closed : ∀ i ∈ w.closed, i < w.made
  nodup : w.registry.order.Nodup
  ordered : ∀ {n}, n ∈ w.registry.order ↔ (w.registry.factories.lookup n).isSome = true

/-- The factory of a name makes a provider. -/
def Makes (configs : Table C) (make : F → Option C → Made) (w : World F) (name : String) : Prop :=
  ∃ f, w.registry.factories.lookup name = some f ∧ make f (configs.lookup name) = .provider

/-- No provider is made under a name that has a live one, and no close fails. -/
def Harmless (w : World F) : Call F C → Prop
  | .register _ _ => True
  | .init configs make =>
    ∀ name, Makes configs make w name → w.registry.instances.lookup name = none
  | .close result => ∀ name i, w.registry.instances.lookup name = some i → result i = none

section Emit

variable {type : EventType} {provider message : String} {r : Registry F}

@[simp] theorem factories_emit : (r.emit type provider message).factories = r.factories := by
  unfold Registry.emit
  split_ifs <;> rfl

@[simp] theorem instances_emit : (r.emit type provider message).instances = r.instances := by
  unfold Registry.emit
  split_ifs <;> rfl

@[simp] theorem order_emit : (r.emit type provider message).order = r.order := by
  unfold Registry.emit
  split_ifs <;> rfl

end Emit

section Register

theorem owned_register (h : Owned w) (name : String) (f : F) :
    Owned { w with registry := w.registry.register name f } := by
  unfold Registry.register
  split_ifs with hname hsome
  · exact h
  · constructor
    · intro n i hn
      rw [instances_emit] at hn
      exact h.live hn
    · intro n m i hn hm
      rw [instances_emit] at hn hm
      exact h.injective hn hm
    · exact h.closed
    · simpa using h.nodup
    · intro n
      rw [order_emit, factories_emit, lookup_insert_if, h.ordered]
      split_ifs with heq
      · exact iff_of_true (heq ▸ hsome) rfl
      · exact Iff.rfl
  · have hnew : name ∉ w.registry.order := fun hmem => hsome (h.ordered.mp hmem)
    constructor
    · intro n i hn
      rw [instances_emit] at hn
      exact h.live hn
    · intro n m i hn hm
      rw [instances_emit] at hn hm
      exact h.injective hn hm
    · exact h.closed
    · rw [order_emit]
      exact List.nodup_append.mpr ⟨h.nodup, List.nodup_singleton name, by
        rintro a ha b hb rfl
        exact hnew (List.mem_singleton.mp hb ▸ ha)⟩
    · intro n
      rw [order_emit, factories_emit, lookup_insert_if, List.mem_append, h.ordered,
        List.mem_singleton]
      split_ifs with heq
      · exact iff_of_true (.inr heq) rfl
      · exact or_iff_left heq

theorem kept_register (name : String) (f : F) :
    Kept { w with registry := w.registry.register name f } ↔ Kept w := by
  have hinstances : (w.registry.register name f).instances = w.registry.instances := by
    unfold Registry.register
    split_ifs <;> simp
  simp only [Kept, Live, hinstances]

end Register

section Init

/-- What one round of the loop does to the providers. -/
theorem initOne_cases (configs : Table C) (make : F → Option C → Made) (w : World F)
    (name : String) :
    (¬ Makes configs make w name ∧
      ∃ es, (initOne configs make w name).2 = { w with registry := { w.registry with events := es } }) ∨
    (Makes configs make w name ∧
      ∃ es, (initOne configs make w name).2 = { w with
        made := w.made + 1
        registry := { w.registry with
          instances := w.registry.instances.insert name w.made, events := es } }) := by
  have hemit : ∀ (r : Registry F) type provider message,
      ∃ es, r.emit type provider message = { r with events := es } := by
    intro r type provider message
    unfold Registry.emit
    split_ifs
    · exact ⟨_, rfl⟩
    · exact ⟨r.events, rfl⟩
  unfold initOne Makes
  cases hf : w.registry.factories.lookup name with
  | none => exact .inl ⟨by rintro ⟨f, ⟨⟩, -⟩, w.registry.events, rfl⟩
  | some f =>
    cases hm : make f (configs.lookup name) with
    | error err =>
      obtain ⟨es, hes⟩ := hemit w.registry .degraded name err
      refine .inl ⟨?_, es, ?_⟩
      · rintro ⟨f', hf', hm'⟩
        cases hf'
        exact nomatch hm.symm.trans hm'
      · simp only [hm, hes]
    | none =>
      refine .inl ⟨?_, w.registry.events, ?_⟩
      · rintro ⟨f', hf', hm'⟩
        cases hf'
        exact nomatch hm.symm.trans hm'
      · simp only [hm]
    | provider =>
      obtain ⟨es, hes⟩ := hemit { w.registry with
        instances := w.registry.instances.insert name w.made } .initialized name ""
      refine .inr ⟨⟨f, rfl, hm⟩, es, ?_⟩
      simp only [hm, hes]

theorem owned_initOne (h : Owned w) (name : String) :
    Owned (initOne configs make w name).2 := by
  obtain ⟨-, es, hw⟩ | ⟨-, es, hw⟩ := initOne_cases configs make w name <;> rw [hw]
  · exact ⟨h.live, h.injective, h.closed, h.nodup, h.ordered⟩
  · constructor
    · intro n i hi
      rw [lookup_insert_if] at hi
      split_ifs at hi
      · cases hi
        exact ⟨Nat.lt_succ_self _, fun hmem => Nat.lt_irrefl _ (h.closed _ hmem)⟩
      · exact ⟨Nat.lt_succ_of_lt (h.live hi).1, (h.live hi).2⟩
    · intro n m i hn hm
      rw [lookup_insert_if] at hn hm
      split_ifs at hn hm with hn' hm' hm'
      · exact hn'.trans hm'.symm
      · cases hn
        exact absurd (h.live hm).1 (Nat.lt_irrefl _)
      · cases hm
        exact absurd (h.live hn).1 (Nat.lt_irrefl _)
      · exact h.injective hn hm
    · exact fun i hi => Nat.lt_succ_of_lt (h.closed i hi)
    · exact h.nodup
    · exact h.ordered

/-- A provider that is lost stays lost. -/
theorem kept_of_initOne (hkept : Kept (initOne configs make w name).2) : Kept w := by
  obtain ⟨-, es, hw⟩ | ⟨-, es, hw⟩ := initOne_cases configs make w name <;> rw [hw] at hkept
  · exact hkept
  · intro i hi
    refine (hkept i (Nat.lt_succ_of_lt hi)).imp_left ?_
    rintro ⟨n, hn⟩
    rw [lookup_insert_if] at hn
    split_ifs at hn
    · cases hn
      exact absurd hi (Nat.lt_irrefl _)
    · exact ⟨n, hn⟩

theorem kept_initOne_iff (h : Owned w) (hkept : Kept w) :
    Kept (initOne configs make w name).2 ↔
      (Makes configs make w name → w.registry.instances.lookup name = none) := by
  obtain ⟨hmakes, es, hw⟩ | ⟨hmakes, es, hw⟩ := initOne_cases configs make w name <;> rw [hw]
  · exact iff_of_true hkept fun hm => absurd hm hmakes
  · constructor
    · intro hkept' _
      cases hold : w.registry.instances.lookup name with
      | none => rfl
      | some i =>
        -- the provider that is replaced has no other name, and is not closed
        obtain ⟨hi, hopen⟩ := h.live hold
        obtain ⟨n, hn⟩ := (hkept' i (Nat.lt_succ_of_lt hi)).resolve_right hopen
        rw [lookup_insert_if] at hn
        split_ifs at hn with hname
        · cases hn
          exact absurd hi (Nat.lt_irrefl _)
        · exact absurd (h.injective hn hold) hname
    · intro hnone i hi
      obtain hi | rfl := Nat.lt_succ_iff_lt_or_eq.mp hi
      · refine (hkept i hi).imp_left ?_
        rintro ⟨n, hn⟩
        refine ⟨n, ?_⟩
        rw [lookup_insert_if, if_neg, hn]
        rintro rfl
        rw [hnone hmakes] at hn
        exact nomatch hn
      · exact .inl ⟨name, by rw [lookup_insert_if, if_pos rfl]⟩

/-- One round of the loop leaves the other names as they are. -/
theorem initOne_other (configs : Table C) (make : F → Option C → Made) (w : World F)
    (hne : n ≠ name) :
    (initOne configs make w name).2.registry.instances.lookup n =
        w.registry.instances.lookup n ∧
      (Makes configs make (initOne configs make w name).2 n ↔ Makes configs make w n) := by
  obtain ⟨-, es, hw⟩ | ⟨-, es, hw⟩ := initOne_cases configs make w name <;> rw [hw]
  · exact ⟨rfl, Iff.rfl⟩
  · refine ⟨?_, Iff.rfl⟩
    rw [lookup_insert_if, if_neg hne]

theorem owned_initAll (h : Owned w) (names : List String) :
    Owned (initAll configs make w names).2 := by
  induction names generalizing w with
  | nil => exact h
  | cons name names ih => exact ih (owned_initOne h name)

theorem kept_of_initAll (hkept : Kept (initAll configs make w names).2) : Kept w := by
  induction names generalizing w with
  | nil => exact hkept
  | cons name names ih => exact kept_of_initOne (ih hkept)

theorem kept_initAll_iff (hnodup : names.Nodup) (h : Owned w) (hkept : Kept w) :
    Kept (initAll configs make w names).2 ↔
      ∀ n ∈ names, Makes configs make w n → w.registry.instances.lookup n = none := by
  induction names generalizing w with
  | nil => exact iff_of_true hkept fun _ hn => nomatch hn
  | cons name names ih =>
    obtain ⟨hname, hnames⟩ := List.nodup_cons.mp hnodup
    rw [List.forall_mem_cons, ← kept_initOne_iff h hkept]
    constructor
    · intro hkept'
      have hone : Kept (initOne configs make w name).2 := kept_of_initAll hkept'
      refine ⟨hone, fun n hn hmakes => ?_⟩
      have hne : n ≠ name := fun heq => hname (heq ▸ hn)
      obtain ⟨hsame, hiff⟩ := initOne_other configs make w hne
      rw [← hsame]
      exact (ih hnames (owned_initOne h name) hone).mp hkept' n hn (hiff.mpr hmakes)
    · rintro ⟨hone, hothers⟩
      refine (ih hnames (owned_initOne h name) hone).mpr fun n hn hmakes => ?_
      have hne : n ≠ name := fun heq => hname (heq ▸ hn)
      obtain ⟨hsame, hiff⟩ := initOne_other configs make w hne
      rw [hsame]
      exact hothers n hn (hiff.mp hmakes)

end Init

section Close

theorem closeOne_cases (result : Provider → Option String) (w : World F) (e : String × Provider) :
    ∃ es, (closeOne result w e).2 = { w with
      closed := (if result e.2 = none then [e.2] else []) ++ w.closed
      registry := { w.registry with events := es } } := by
  unfold closeOne
  cases hresult : result e.2 with
  | some err => exact ⟨w.registry.events, rfl⟩
  | none =>
    refine ⟨(w.registry.emit .closed e.1 "").events, ?_⟩
    rw [if_pos rfl]
    unfold Registry.emit
    split_ifs <;> rfl

/-- Closing moves providers to the closed ones, and nothing else. -/
theorem closeAll_world (result : Provider → Option String) (w : World F)
    (live : List (String × Provider)) : ∃ closed es, (closeAll result w live).2 = { w with
      closed := closed, registry := { w.registry with events := es } } ∧
    ∀ i, i ∈ closed ↔ i ∈ w.closed ∨ ∃ e ∈ live, e.2 = i ∧ result i = none := by
  induction live generalizing w with
  | nil =>
    refine ⟨w.closed, w.registry.events, rfl, fun i => ?_⟩
    simp only [List.not_mem_nil, false_and, exists_false, or_false]
  | cons e live ih =>
    obtain ⟨es, hone⟩ := closeOne_cases result w e
    obtain ⟨closed, es', hall, hmem⟩ := ih (closeOne result w e).2
    refine ⟨closed, es', ?_, fun i => ?_⟩
    · change (closeAll result (closeOne result w e).2 live).2 = _
      rw [hall, hone]
    · have hfirst : i ∈ (if result e.2 = none then [e.2] else []) ↔ e.2 = i ∧ result i = none := by
        split_ifs with hresult
        · rw [List.mem_singleton, eq_comm]
          exact ⟨fun h => ⟨h, h ▸ hresult⟩, And.left⟩
        · refine iff_of_false List.not_mem_nil ?_
          rintro ⟨rfl, h⟩
          exact hresult h
      rw [hmem, hone, List.mem_append, hfirst]
      rw [List.exists_mem_cons_iff, ← or_assoc, or_comm (a := i ∈ w.closed)]

theorem mem_live : (∃ e ∈ w.registry.instances.entries.map (fun e => (e.1, e.2)), e.2 = i) ↔
    Live w i := by
  simp only [List.mem_map, Live]
  constructor
  · rintro ⟨_, ⟨⟨n, j⟩, hmem, rfl⟩, rfl⟩
    exact ⟨n, AList.mem_lookup_iff.mpr hmem⟩
  · rintro ⟨n, hn⟩
    exact ⟨(n, i), ⟨⟨n, i⟩, AList.mem_lookup_iff.mp hn, rfl⟩, rfl⟩

theorem close_world (result : Provider → Option String) (w : World F) :
    ∃ closed es, (close result w).2 = { w with
      closed := closed, registry := { w.registry with instances := ∅, events := es } } ∧
    ∀ i, i ∈ closed ↔ i ∈ w.closed ∨ Live w i ∧ result i = none := by
  obtain ⟨closed, es, hall, hmem⟩ :=
    closeAll_world result w (w.registry.instances.entries.map fun e => (e.1, e.2))
  refine ⟨closed, es, ?_, fun i => ?_⟩
  · simp only [close, hall]
  · rw [hmem, ← mem_live]
    simp only [← and_assoc, exists_and_right]

theorem owned_close (h : Owned w) (result : Provider → Option String) :
    Owned (close result w).2 := by
  obtain ⟨closed, es, hw, hmem⟩ := close_world result w
  rw [hw]
  constructor
  · intro n i hi
    exact nomatch hi
  · intro n m i hi
    exact nomatch hi
  · intro i hi
    obtain hi | ⟨⟨n, hn⟩, -⟩ := (hmem i).mp hi
    · exact h.closed i hi
    · exact (h.live hn).1
  · exact h.nodup
  · exact h.ordered

theorem kept_close_iff (h : Owned w) (hkept : Kept w) : Kept (close result w).2 ↔
    ∀ name i, w.registry.instances.lookup name = some i → result i = none := by
  obtain ⟨closed, es, hw, hmem⟩ := close_world result w
  rw [hw]
  constructor
  · intro hkept' name i hi
    obtain ⟨hmade, hopen⟩ := h.live hi
    obtain ⟨n, hn⟩ | hclosed := hkept' i hmade
    · exact nomatch hn
    · exact (((hmem i).mp hclosed).resolve_left hopen).2
  · intro hresult i hi
    refine .inr ((hmem i).mpr ?_)
    obtain ⟨n, hn⟩ | hclosed := hkept i hi
    · exact .inr ⟨⟨n, hn⟩, hresult n i hn⟩
    · exact .inl hclosed

end Close

theorem owned_step (w : World F) (c : Call F C) (h : Owned w) : Owned (step w c).2 := by
  cases c with
  | register name f => exact owned_register h name f
  | init configs make => exact owned_initAll h _
  | close result => exact owned_close h result

theorem kept_step_iff (w : World F) (c : Call F C) (h : Owned w) (hkept : Kept w) :
    Kept (step w c).2 ↔ Harmless w c := by
  cases c with
  | register name f => exact iff_of_true ((kept_register name f).mpr hkept) trivial
  | init configs make =>
    refine (kept_initAll_iff (h.nodup.filter _) h hkept).trans ⟨fun hall name hmakes => ?_,
      fun hall name _ => hall name⟩
    obtain ⟨f, hf, -⟩ := id hmakes
    have hsome : (w.registry.factories.lookup name).isSome = true := by rw [hf, Option.isSome_some]
    exact hall name (List.mem_filter.mpr ⟨h.ordered.mpr hsome, hsome⟩) hmakes
  | close result => exact kept_close_iff h hkept

theorem owned_empty : Owned ({} : World F) := by
  constructor
  · exact fun hn => nomatch hn
  · exact fun hn => nomatch hn
  · exact fun i hi => nomatch hi
  · exact List.nodup_nil
  · exact iff_of_false List.not_mem_nil Bool.false_ne_true

theorem kept_empty : Kept ({} : World F) := fun _ hi => absurd hi (Nat.not_lt_zero _)

/-- No provider is lost in a run if and only if every call of it is harmless. -/
theorem lifecycle_iff (cs : List (Call F C)) :
    (∀ x ∈ trace step ({} : World F) cs, Kept x.2) ↔ Along step Harmless {} cs :=
  throughout_iff (fun w c h _ => owned_step w c h) kept_step_iff owned_empty kept_empty cs

/-- A second `Init` drops the provider of the first one. -/
theorem second_init_drops :
    ¬ ∀ cs : List (Call Unit Unit), ∀ x ∈ trace step ({} : World Unit) cs, Kept x.2 := by
  intro h
  let init : Call Unit Unit := .init ∅ fun _ _ => .provider
  have halong := (throughout_iff (fun w c h _ => owned_step w c h) kept_step_iff owned_empty kept_empty
    [.register "oqs" (), init, init]).mp (h _)
  exact absurd (halong.2.2.1 "oqs" ⟨(), rfl, rfl⟩) (by decide)

end RivicQ.Properties.Lifecycle
