import Mathlib.Data.List.Induction
import Mathlib.Data.List.Nodup
import RivicQ.Lib.Projections

namespace RivicQ.Lib.SharedStores

open RivicQ.Lib.Projections

variable {K V T : Type}

section Stores

variable [DecidableEq K]

/-- Put a value under a key. A new key comes last, and beyond the capacity the oldest go. -/
def put (cap : Nat) (k : K) (v : V) (l : List (K × V)) : List (K × V) :=
  if k ∈ l.map Prod.fst then l.map fun e => if e.1 = k then (k, v) else e
  else (l ++ [(k, v)]).drop (l.length + 1 - cap)

/-- Change the value under a key, if there is one. -/
def adjust (k : K) (f : V → V) (l : List (K × V)) : List (K × V) :=
  l.map fun e => if e.1 = k then (k, f e.2) else e

/-- What the sharers of a store do: its values have owners, and so have the changes. -/
inductive Action (K V T : Type) where
  | put (k : K) (v : V)
  | adjust (t : T) (k : K) (f : V → V)

def Action.by (owner : V → T) : Action K V T → T
  | .put _ v => owner v
  | .adjust t _ _ => t

def apply (cap : Nat) (l : List (K × V)) : Action K V T → List (K × V)
  | .put k v => put cap k v l
  | .adjust _ k f => adjust k f l

variable {cap : Nat} {l : List (K × V)} {k : K} {a : Action K V T}

theorem keys_replace (g : K × V → V) :
    (l.map fun e => if e.1 = k then (k, g e) else e).map Prod.fst = l.map Prod.fst := by
  rw [List.map_map]
  refine List.map_congr_left fun e _ => ?_
  rw [Function.comp_apply]
  split_ifs with h
  · exact h.symm
  · rfl

theorem nodup_apply (h : (l.map Prod.fst).Nodup) :
    ((apply cap l a).map Prod.fst).Nodup := by
  cases a with
  | put k v =>
    simp only [apply, put]
    split_ifs with hk
    · rwa [keys_replace fun _ => v]
    · rw [List.map_drop, List.map_append]
      refine (List.nodup_append.mpr ⟨h, List.nodup_singleton k, ?_⟩).sublist
        (List.drop_sublist _ _)
      rintro x hx y hy rfl
      exact hk (List.mem_singleton.mp hy ▸ hx)
  | adjust t k f =>
    simp only [apply, adjust]
    rwa [keys_replace fun e => f e.2]

theorem length_apply (h : l.length ≤ cap) : (apply cap l a).length ≤ cap := by
  cases a with
  | put k v =>
    simp only [apply, put]
    split_ifs
    · rwa [List.length_map]
    · rw [List.length_drop, List.length_append, List.length_singleton]
      omega
  | adjust t k f =>
    rwa [apply, adjust, List.length_map]

end Stores

section Parts

variable [DecidableEq T] (owner : V → T)

/-- The part of a store that belongs to an owner. -/
def part (t : T) (l : List (K × V)) : List (K × V) := l.filter fun e => owner e.2 = t

/-- What an owner sees: the values, and the value under each key. -/
def Looks (t : T) (l l' : List (K × V)) : Prop :=
  (part owner t l).map Prod.snd = (part owner t l').map Prod.snd ∧
    ∀ k v, (k, v) ∈ part owner t l ↔ (k, v) ∈ part owner t l'

/-- A store, and for each owner the store there would be without the others. -/
structure Pair (K V T : Type) where
  shared : List (K × V) := []
  own : T → List (K × V) := fun _ => []

/-- Every owner sees the shared store as the store there would be without the others. -/
def Unnoticed (owner : V → T) (p : Pair K V T) : Prop := ∀ t, Looks owner t p.shared (p.own t)

/-- Every owner's store alone is its own part of the shared one. -/
structure Apart (owner : V → T) (cap : Nat) (p : Pair K V T) : Prop where
  nodup : (p.shared.map Prod.fst).Nodup
  length : p.shared.length ≤ cap
  own : ∀ t, p.own t = part owner t p.shared

variable {owner} {l : List (K × V)} {t : T} {e : K × V}

theorem mem_part : e ∈ part owner t l ↔ e ∈ l ∧ owner e.2 = t := by
  rw [part, List.mem_filter, decide_eq_true_eq]

theorem mem_part_self : e ∈ part owner t (part owner t l) ↔ e ∈ l ∧ owner e.2 = t := by
  rw [mem_part, mem_part, and_assoc, and_self]

theorem part_map {g : K × V → K × V} (h : ∀ e ∈ l, owner (g e).2 = t ↔ owner e.2 = t) :
    part owner t (l.map g) = (part owner t l).map g := by
  rw [part, part, List.filter_map]
  congr 1
  exact List.filter_congr fun e he => decide_eq_decide.mpr (h e he)

theorem part_eq_self (h : ∀ e ∈ l, owner e.2 = t) : part owner t l = l :=
  List.filter_eq_self.mpr fun e he => decide_eq_true (h e he)

theorem part_eq_nil (h : ∀ e ∈ l, owner e.2 ≠ t) : part owner t l = [] :=
  List.filter_eq_nil_iff.mpr fun e he => by simpa using h e he

theorem apart_empty (cap : Nat) : Apart owner cap ({} : Pair K V T) where
  nodup := List.nodup_nil
  length := Nat.zero_le cap
  own _ := rfl

theorem unnoticed_of_apart {cap : Nat} {p : Pair K V T} (h : Apart owner cap p) : Unnoticed owner p := by
  intro t
  have hpart : part owner t (part owner t p.shared) = part owner t p.shared :=
    part_eq_self fun e he => (mem_part.mp he).2
  rw [h.own, Looks, hpart]
  exact ⟨rfl, fun _ _ => Iff.rfl⟩

end Parts

section Isolation

variable [DecidableEq K] [DecidableEq T] (owner : V → T) (cap : Nat)

/-- An action that touches values of its owner only: it puts nothing in the place of another
owner's value and lets nothing go unless the whole store is its owner's, and it changes no other
value and no value's owner. -/
def Harmless (l : List (K × V)) : Action K V T → Prop
  | .put k v =>
    (∀ e ∈ l, e.1 = k → owner e.2 = owner v) ∧
      (k ∉ l.map Prod.fst → cap ≤ l.length → ∀ e ∈ l, owner e.2 = owner v)
  | .adjust t k f =>
    ∀ e ∈ l, e.1 = k →
      (owner e.2 = t → owner (f e.2) = t) ∧ (owner e.2 ≠ t → f e.2 = e.2)

def stepPair (p : Pair K V T) (a : Action K V T) : Unit × Pair K V T :=
  ((), { shared := apply cap p.shared a
         own := fun t => if a.by owner = t then apply cap (p.own t) a else p.own t })

variable {owner cap} {l : List (K × V)} {k : K} {v : V} {t : T} {a : Action K V T} {e : K × V}

theorem part_put (h : Harmless owner cap l (.put k v : Action K V T)) :
    part owner t (put cap k v l) =
      if owner v = t then put cap k v (part owner t l) else part owner t l := by
  obtain ⟨hsame, halone⟩ := h
  by_cases hk : k ∈ l.map Prod.fst
  · obtain ⟨e₀, he₀, rfl⟩ := List.mem_map.mp hk
    have howner := hsame e₀ he₀ rfl
    have hmap : part owner t (l.map fun e => if e.1 = e₀.1 then (e₀.1, v) else e) =
        (part owner t l).map fun e => if e.1 = e₀.1 then (e₀.1, v) else e := by
      refine part_map fun e he => ?_
      split_ifs with hkey
      · rw [hsame e he hkey]
      · exact Iff.rfl
    rw [put, if_pos hk, hmap]
    split_ifs with ht
    · rw [put, if_pos (List.mem_map_of_mem (mem_part.mpr ⟨he₀, howner.trans ht⟩))]
    · refine (List.map_congr_left fun e he => ?_).trans (List.map_id _)
      obtain ⟨he, hown⟩ := mem_part.mp he
      exact if_neg fun hkey => ht ((hsame e he hkey).symm.trans hown)
  · have hk' : k ∉ (part owner t l).map Prod.fst := fun hmem =>
      hk ((List.filter_sublist.map Prod.fst).subset hmem)
    rw [put, if_neg hk]
    by_cases hroom : cap ≤ l.length
    · have hall := halone hk hroom
      split_ifs with ht
      · rw [part_eq_self fun e he => (hall e he).trans ht, put, if_neg hk]
        refine part_eq_self fun e he => ?_
        obtain he | he := List.mem_append.mp (List.mem_of_mem_drop he)
        · exact (hall e he).trans ht
        · exact List.mem_singleton.mp he ▸ ht
      · have hnone : part owner t l = [] := part_eq_nil fun e he => hall e he ▸ ht
        rw [hnone]
        refine part_eq_nil fun e he => ?_
        obtain he | he := List.mem_append.mp (List.mem_of_mem_drop he)
        · exact hall e he ▸ ht
        · exact List.mem_singleton.mp he ▸ ht
    · have hle : (part owner t l).length ≤ l.length := List.length_filter_le ..
      have hzero : l.length + 1 - cap = 0 := by omega
      have hzero' : (part owner t l).length + 1 - cap = 0 := by omega
      rw [hzero, List.drop_zero, part, List.filter_append, List.filter_singleton, ← part]
      split_ifs with ht
      · rw [put, if_neg hk', hzero', List.drop_zero, decide_eq_true ht, cond_true]
      · rw [decide_eq_false ht, cond_false, List.append_nil]

theorem part_adjust {t' : T} {f : V → V}
    (h : Harmless owner cap l (.adjust t' k f : Action K V T)) :
    part owner t (adjust k f l) =
      if t' = t then adjust k f (part owner t l) else part owner t l := by
  have hmap : part owner t (adjust k f l) = adjust k f (part owner t l) := by
    refine part_map fun e he => ?_
    split_ifs with hkey
    · obtain ⟨hmine, hother⟩ := h e he hkey
      by_cases hown : owner e.2 = t'
      · rw [hmine hown, hown]
      · rw [hother hown]
    · exact Iff.rfl
  rw [hmap]
  split_ifs with ht
  · rfl
  · refine (List.map_congr_left fun e he => ?_).trans (List.map_id _)
    obtain ⟨he, hown⟩ := mem_part.mp he
    split_ifs with hkey
    · rw [← hkey, (h e he hkey).2 fun heq => ht (heq.symm.trans hown)]
      rfl
    · rfl

/-- A step that is harmless leaves the parts of the others as they are, and does to the part of
its owner what it does to a store of that owner alone. -/
theorem part_apply (h : Harmless owner cap l a) :
    part owner t (apply cap l a) =
      if a.by owner = t then apply cap (part owner t l) a else part owner t l := by
  cases a with
  | put k v => exact part_put h
  | adjust t' k f => exact part_adjust h

theorem apart_step {p : Pair K V T} (h : Apart owner cap p) (ha : Harmless owner cap p.shared a) :
    Apart owner cap (stepPair owner cap p a).2 where
  nodup := nodup_apply h.nodup
  length := length_apply h.length
  own t := by
    simp only [stepPair]
    rw [part_apply ha, h.own]

/-- What is put in the place of another owner's value, or lets a value go that a store of its
owner alone would hold, is noticed. -/
theorem harmless_put {u : T} (hnodup : (l.map Prod.fst).Nodup)
    (hlength : l.length ≤ cap) (hv : owner v = u)
    (hown : Looks owner u (put cap k v l) (put cap k v (part owner u l)))
    (hothers : ∀ t ≠ u, Looks owner t (put cap k v l) (part owner t l)) :
    Harmless owner cap l (.put k v : Action K V T) := by
  constructor
  · intro e he hkey
    by_contra hne
    rw [hv] at hne
    have hmem := ((hothers _ hne).2 e.1 e.2).mpr (mem_part_self.mpr ⟨he, rfl⟩)
    rw [mem_part, put, if_pos (hkey ▸ List.mem_map_of_mem he), List.mem_map] at hmem
    obtain ⟨⟨e', -, heq⟩, -⟩ := hmem
    split_ifs at heq with hkey'
    · rw [← (Prod.mk.inj heq).2, hv] at hne
      exact hne rfl
    · rw [heq] at hkey'
      exact hkey' hkey
  · intro hk hroom e he
    by_contra hne
    rw [hv] at hne
    cases l with
    | nil => exact nomatch he
    | cons e₀ l =>
      have hone : (e₀ :: l).length + 1 - cap = 1 := by omega
      have hput : put cap k v (e₀ :: l) = l ++ [(k, v)] := by
        rw [put, if_neg hk, hone]
        rfl
      -- the oldest value has gone
      have hgone : e₀ ∉ put cap k v (e₀ :: l) := by
        rw [hput, List.mem_append, List.mem_singleton, not_or]
        refine ⟨fun hmem => ?_, ?_⟩
        · exact (List.nodup_cons.mp hnodup).1 (List.mem_map_of_mem hmem)
        · rintro rfl
          exact hk List.mem_cons_self
      by_cases hfirst : owner e₀.2 = u
      · have hlt : (part owner u (e₀ :: l)).length < (e₀ :: l).length := by
          refine List.length_filter_lt_length_iff_exists.mpr ⟨e, he, ?_⟩
          simpa using hne
        have hk' : k ∉ (part owner u (e₀ :: l)).map Prod.fst := fun hmem =>
          hk ((List.filter_sublist.map Prod.fst).subset hmem)
        have hzero : (part owner u (e₀ :: l)).length + 1 - cap = 0 := by omega
        have hmem : e₀ ∈ part owner u (put cap k v (part owner u (e₀ :: l))) := by
          rw [put, if_neg hk', hzero, List.drop_zero]
          exact mem_part.mpr ⟨List.mem_append_left _ (mem_part.mpr ⟨List.mem_cons_self, hfirst⟩),
            hfirst⟩
        exact hgone (mem_part.mp ((hown.2 e₀.1 e₀.2).mpr hmem)).1
      · have hmem : e₀ ∈ part owner (owner e₀.2) (part owner (owner e₀.2) (e₀ :: l)) :=
          mem_part_self.mpr ⟨List.mem_cons_self, rfl⟩
        exact hgone (mem_part.mp (((hothers _ hfirst).2 e₀.1 e₀.2).mpr hmem)).1

theorem harmless_adjust {t' : T} {f : V → V} (hnodup : (l.map Prod.fst).Nodup)
    (hothers : ∀ t ≠ t', Looks owner t (adjust k f l) (part owner t l)) :
    Harmless owner cap l (.adjust t' k f : Action K V T) := by
  intro e he hkey
  have hadjusted : (k, f e.2) ∈ adjust k f l :=
    List.mem_map.mpr ⟨e, he, if_pos hkey⟩
  refine ⟨fun hown => ?_, fun hown => ?_⟩
  · by_contra hne
    have hmem := ((hothers _ hne).2 k (f e.2)).mp (mem_part.mpr ⟨hadjusted, rfl⟩)
    have hold := (mem_part_self.mp hmem).1
    have hvalue : f e.2 = e.2 := congrArg Prod.snd (List.inj_on_of_nodup_map hnodup hold he hkey.symm)
    rw [hvalue] at hne
    exact hne hown
  · have hmem := ((hothers _ hown).2 e.1 e.2).mpr (mem_part_self.mpr ⟨he, rfl⟩)
    obtain ⟨e', he', heq⟩ := List.mem_map.mp (mem_part.mp hmem).1
    split_ifs at heq with hkey'
    · rw [List.inj_on_of_nodup_map hnodup he' he (hkey'.trans hkey.symm)] at heq
      exact (Prod.mk.inj heq).2
    · exact absurd ((congrArg Prod.fst heq).trans hkey) hkey'

/-- A step of a store that all owners see as their own stores is noticed by nobody exactly if it
is harmless. -/
theorem unnoticed_step_iff (p : Pair K V T) (a : Action K V T)
    (h : Apart owner cap p) :
    Unnoticed owner (stepPair owner cap p a).2 ↔ Harmless owner cap p.shared a := by
  refine ⟨fun hlooks => ?_, fun ha => unnoticed_of_apart (apart_step h ha)⟩
  have hothers : ∀ t ≠ a.by owner,
      Looks owner t (apply cap p.shared a) (part owner t p.shared) := by
    intro t ht
    have hlook := hlooks t
    simp only [stepPair, if_neg (Ne.symm ht), h.own] at hlook
    exact hlook
  cases a with
  | put k v =>
    have hown := hlooks (owner v)
    simp only [stepPair, Action.by, if_true, h.own] at hown
    exact harmless_put h.nodup h.length rfl hown hothers
  | adjust t' k f => exact harmless_adjust h.nodup hothers

variable (owner cap)

def run (as : List (Action K V T)) : List (K × V) := as.foldl (apply cap) []

/-- The actions of one owner. -/
def alone (t : T) (as : List (Action K V T)) : List (Action K V T) :=
  as.filter fun a => a.by owner = t

theorem after_stepPair (as : List (Action K V T)) : after (stepPair owner cap) {} as =
    { shared := run cap as, own := fun t => run cap (alone owner t as) } := by
  induction as using List.reverseRecOn with
  | nil => rfl
  | append_singleton as a ih =>
    rw [after_append, ih]
    simp only [after, stepPair, run, alone, List.foldl_append, List.filter_append,
      List.filter_singleton]
    congr 1
    funext t
    by_cases ht : a.by owner = t
    · rw [if_pos ht, decide_eq_true ht]
      rfl
    · rw [if_neg ht, decide_eq_false ht]
      rfl

/-- Every owner sees the store at all times as one of its own if and only if every action is
harmless. -/
theorem isolated_iff (as : List (Action K V T)) :
    (∀ bs, bs <+: as → ∀ t, Looks owner t (run cap bs) (run cap (alone owner t bs))) ↔
      Along (fun l a => ((), apply cap l a)) (Harmless owner cap) [] as := by
  have hgood : Unnoticed owner ({} : Pair K V T) := unnoticed_of_apart (apart_empty cap)
  have hpair : (∀ x ∈ trace (stepPair owner cap) {} as, Unnoticed owner x.2) ↔
      Along (stepPair owner cap) (fun p a => Harmless owner cap p.shared a) {} as :=
    throughout_iff (fun _ _ h ha => apart_step h ha)
      (fun p a h _ => unnoticed_step_iff p a h) (apart_empty cap) hgood as
  have hshared : Along (stepPair owner cap) (fun p a => Harmless owner cap p.shared a) {} as ↔
      Along (fun l a => ((), apply cap l a)) (Harmless owner cap) [] as :=
    along_map (φ := Pair.shared) (fun _ _ => rfl) {} as
  rw [forall_trace_iff hgood, hshared] at hpair
  simp only [after_stepPair, Unnoticed] at hpair
  exact hpair

end Isolation

end RivicQ.Lib.SharedStores
