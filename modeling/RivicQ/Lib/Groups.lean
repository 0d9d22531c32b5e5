import Mathlib.Data.List.Induction
import Mathlib.Data.Multiset.Lattice
import Mathlib.Order.Bounds.Basic
import Mathlib.Order.Lattice
import RivicQ.Lib.Firsts
import RivicQ.Lib.Tables

namespace RivicQ.Lib.Joins

variable {F P D G : Type} {applies : F → P → Bool} {fs gs : List F} {ps : List P}

/-- The items with the rules that apply to them, item by item. -/
def matched (applies : F → P → Bool) (fs : List F) (ps : List P) : List (F × P) :=
  fs.flatMap fun f => (ps.filter (applies f)).map fun p => (f, p)

theorem mem_matched {f : F} {p : P} :
    (f, p) ∈ matched applies fs ps ↔ f ∈ fs ∧ p ∈ ps ∧ applies f p = true := by
  simp only [matched, List.mem_flatMap, List.mem_map, List.mem_filter, Prod.mk.injEq]
  constructor
  · rintro ⟨f', hf, p', ⟨hp, h⟩, rfl, rfl⟩
    exact ⟨hf, hp, h⟩
  · rintro ⟨hf, hp, h⟩
    exact ⟨f, hf, p, ⟨hp, h⟩, rfl, rfl⟩

theorem matched_cons (f : F) : matched applies (f :: fs) ps =
    (ps.filter (applies f)).map (fun p => (f, p)) ++ matched applies fs ps := List.flatMap_cons

theorem matched_append : matched applies (fs ++ gs) ps =
    matched applies fs ps ++ matched applies gs ps := List.flatMap_append

section Loops

variable {step : F → G → P → G} {state : List (F × P) → G}

/-- A loop over the rules for one item records those that apply. -/
theorem foldl_rules {f : F} (hstep : ∀ judged p, step f (state judged) p =
      if applies f p then state (judged ++ [(f, p)]) else state judged)
    (judged : List (F × P)) : ps.foldl (step f) (state judged) =
      state (judged ++ (ps.filter (applies f)).map fun p => (f, p)) := by
  induction ps generalizing judged with
  | nil => rw [List.filter_nil, List.map_nil, List.append_nil, List.foldl_nil]
  | cons p ps ih =>
    rw [List.foldl_cons, hstep]
    by_cases h : applies f p = true
    · rw [if_pos h, ih, List.filter_cons_of_pos h, List.map_cons, List.append_assoc,
        List.singleton_append]
    · rw [if_neg h, ih, List.filter_cons_of_neg h]

/-- A loop over items that skips some, and over the rules for the others, records the
rules that apply to items that are not skipped. -/
theorem foldl_matched (applies : F → P → Bool) (step : F → G → P → G)
    (state : List (F × P) → G) (skip : F → Bool) (hstep : ∀ f judged p, step f (state judged) p =
      if applies f p then state (judged ++ [(f, p)]) else state judged)
    (judged : List (F × P)) :
    fs.foldl (fun g f => if skip f then g else ps.foldl (step f) g) (state judged) =
      state (judged ++ matched (fun f p => !skip f && applies f p) fs ps) := by
  induction fs generalizing judged with
  | nil => rw [matched, List.flatMap_nil, List.append_nil, List.foldl_nil]
  | cons f fs ih =>
    rw [List.foldl_cons, matched_cons]
    cases hskip : skip f with
    | true =>
      have hnone : ps.filter (fun p => !true && applies f p) = [] := by simp
      rw [if_pos rfl, ih, hnone, List.map_nil, List.nil_append]
    | false =>
      have hall : ps.filter (fun p => !false && applies f p) = ps.filter (applies f) := by simp
      rw [if_neg Bool.false_ne_true, foldl_rules (hstep f), ih, hall, List.append_assoc]

end Loops

section Worst

variable [SemilatticeSup D] [OrderBot D] {weight : P → D} {judged judged' : List (F × P)} {d : D}

/-- The join of the weights of the rules that applied. -/
def worst (weight : P → D) (judged : List (F × P)) : D :=
  (Multiset.ofList (judged.map fun x => weight x.2)).sup

theorem worst_le : worst weight judged ≤ d ↔ ∀ x ∈ judged, weight x.2 ≤ d := by
  rw [worst, Multiset.sup_le]
  exact List.forall_mem_map

theorem le_worst {x : F × P} (hx : x ∈ judged) : weight x.2 ≤ worst weight judged :=
  Multiset.le_sup (Multiset.mem_coe.mpr (List.mem_map_of_mem hx))

theorem worst_append : worst weight (judged ++ judged') =
    worst weight judged ⊔ worst weight judged' := by
  rw [worst, List.map_append, ← Multiset.coe_add, Multiset.sup_add]
  rfl

theorem worst_mono (h : judged ⊆ judged') : worst weight judged ≤ worst weight judged' :=
  worst_le.mpr fun _ hx => le_worst (h hx)

/-- Only which rules applied matters, not in which order or how often. -/
theorem worst_congr (h : ∀ x, x ∈ judged ↔ x ∈ judged') :
    worst weight judged = worst weight judged' :=
  (worst_mono fun x hx => (h x).mp hx).antisymm (worst_mono fun x hx => (h x).mpr hx)

end Worst

end RivicQ.Lib.Joins

namespace RivicQ.Lib.Groups

open RivicQ.Lib.Tables RivicQ.Lib.Firsts

/-- What a pass over a list has met: the keys in the order of their first items,
and for each key the merge of its items. -/
structure Groups (V : Type) where
  order : List String := []
  byKey : Table V := ∅

variable {V : Type}

def Groups.values (g : Groups V) : List V := g.order.filterMap g.byKey.lookup

variable (key : V → String) (merge : V → V → V)

def Groups.add (g : Groups V) (v : V) : Groups V :=
  match g.byKey.lookup (key v) with
  | none => { order := g.order ++ [key v], byKey := g.byKey.insert (key v) v }
  | some prev => { g with byKey := g.byKey.insert (key v) (merge prev v) }

def group (items : List V) : Groups V := items.foldl (Groups.add key merge) {}

/-- The items of one key, merged into the first one of them. -/
def summary (items : List V) : Option V :=
  match items with
  | [] => none
  | v :: vs => some (vs.foldl merge v)

variable {key merge} {items : List V} {k : String} {r v : V}

theorem summary_concat : summary merge (items ++ [v]) =
    some (match summary merge items with
      | none => v
      | some prev => merge prev v) := by
  cases items with
  | nil => rfl
  | cons w ws => simp [summary]

theorem group_concat : group key merge (items ++ [v]) = (group key merge items).add key merge v :=
  List.foldl_concat _ _ _ _

theorem lookup_add {g : Groups V} : (g.add key merge v).byKey.lookup k =
    if k = key v then some (match g.byKey.lookup (key v) with
      | none => v
      | some prev => merge prev v)
    else g.byKey.lookup k := by
  unfold Groups.add
  cases hprev : g.byKey.lookup (key v) <;> rw [lookup_insert_if]

theorem lookup_group : (group key merge items).byKey.lookup k =
    summary merge (items.filter fun v => key v = k) := by
  induction items using List.reverseRecOn with
  | nil => rfl
  | append_singleton items v ih =>
    rw [group_concat, lookup_add, List.filter_append]
    by_cases hk : k = key v
    · subst hk
      rw [if_pos rfl, List.filter_singleton, decide_eq_true rfl, cond_true, summary_concat, ih]
    · rw [if_neg hk, List.filter_singleton, decide_eq_false (Ne.symm hk), cond_false,
        List.append_nil, ih]

theorem mem_order : k ∈ (group key merge items).order ↔ ∃ v ∈ items, key v = k := by
  induction items using List.reverseRecOn with
  | nil => simp [group]
  | append_singleton items v ih =>
    have hconcat : (∃ w ∈ items ++ [v], key w = k) ↔ (∃ w ∈ items, key w = k) ∨ key v = k := by
      simp [or_and_right, exists_or]
    rw [group_concat, hconcat, ← ih, Groups.add]
    cases hprev : (group key merge items).byKey.lookup (key v) with
    | none => simp [eq_comm]
    | some prev =>
      -- An earlier item has the key already.
      refine (or_iff_left_of_imp fun hk => ?_).symm
      rw [lookup_group] at hprev
      cases hitems : items.filter fun w => key w = key v with
      | nil => exact absurd (hitems ▸ hprev) nofun
      | cons w ws =>
        have hw : w ∈ items.filter fun w => key w = key v := hitems ▸ List.mem_cons_self
        obtain ⟨hmem, hkey⟩ := List.mem_filter.mp hw
        exact ih.mpr ⟨w, hmem, (of_decide_eq_true hkey).trans hk⟩

theorem mem_values : r ∈ (group key merge items).values ↔
    ∃ v ∈ items, summary merge (items.filter fun w => key w = key v) = some r := by
  simp only [Groups.values, List.mem_filterMap, mem_order, lookup_group]
  constructor
  · rintro ⟨k, ⟨v, hv, rfl⟩, h⟩
    exact ⟨v, hv, h⟩
  · rintro ⟨v, hv, h⟩
    exact ⟨key v, ⟨v, hv, rfl⟩, h⟩

/-- What holds of one item, and survives the merge with a next one, holds of the summary. -/
theorem summary_rule (Rep : List V → V → Prop) (hfirst : ∀ v, Rep [v] v)
    (hmerge : ∀ vs r v, Rep vs r → Rep (vs ++ [v]) (merge r v))
    (h : summary merge items = some r) : Rep items r := by
  induction items using List.reverseRecOn generalizing r with
  | nil => exact nomatch h
  | append_singleton items v ih =>
    rw [summary_concat] at h
    cases hprev : summary merge items with
    | none =>
      have hitems : items = [] := by
        cases items with
        | nil => rfl
        | cons w ws => exact nomatch hprev
      rw [hprev] at h
      cases h
      rw [hitems]
      exact hfirst v
    | some prev =>
      rw [hprev] at h
      cases h
      exact hmerge items prev v (ih hprev)

theorem summary_isSome (merge : V → V → V) (h : items ≠ []) :
    ∃ r, summary merge items = some r := by
  cases items with
  | nil => exact absurd rfl h
  | cons v vs => exact ⟨_, rfl⟩

/-- The order of later items does not matter if it does not matter to the merge. -/
theorem summary_append_perm (hcomm : ∀ a b c, merge (merge a b) c = merge (merge a c) b)
    {later later' : List V} (hne : items ≠ []) (hperm : later.Perm later') :
    summary merge (items ++ later) = summary merge (items ++ later') := by
  cases items with
  | nil => exact absurd rfl hne
  | cons v vs =>
    change some ((vs ++ later).foldl merge v) = some ((vs ++ later').foldl merge v)
    rw [List.foldl_append, List.foldl_append, hperm.foldl_eq' fun a _ b _ c => hcomm c a b]

theorem summary_last : summary (fun _ v => v) items = items.getLast? := by
  induction items using List.reverseRecOn with
  | nil => rfl
  | append_singleton items v ih =>
    rw [summary_concat, List.getLast?_concat]
    cases summary (fun _ v => v) items <;> rfl

section Keys

variable {a b : V} {items' : List V}

/-- The summary of the items of one key has that key, if a merge keeps the key that both items
have. -/
theorem key_summary (hkey : ∀ a b, key a = key b → key (merge a b) = key a)
    (h : summary merge (items.filter fun w => key w = k) = some r) : key r = k := by
  have hrep := summary_rule
    (fun vs r => (∀ w ∈ vs, key w = k) → key r = k)
    (fun w hw => hw w List.mem_cons_self) (fun ws r w hr hw => ?_) h
  · exact hrep fun w hw => of_decide_eq_true (List.mem_filter.mp hw).2
  · obtain ⟨hws, hw⟩ := List.forall_mem_append.mp hw
    have hwk := hw w List.mem_cons_self
    rw [hkey r w ((hr hws).trans hwk.symm), hr hws]

/-- Grouping keeps the keys of the items. -/
theorem mem_map_key_values (hkey : ∀ a b, key a = key b → key (merge a b) = key a) :
    k ∈ (group key merge items).values.map key ↔ k ∈ items.map key := by
  simp only [List.mem_map, mem_values]
  constructor
  · rintro ⟨r, ⟨v, hv, h⟩, rfl⟩
    exact ⟨v, hv, (key_summary hkey h).symm⟩
  · rintro ⟨v, hv, rfl⟩
    have hne : items.filter (fun w => key w = key v) ≠ [] :=
      List.ne_nil_of_mem (List.mem_filter.mpr ⟨hv, decide_eq_true rfl⟩)
    obtain ⟨r, hr⟩ := summary_isSome merge hne
    exact ⟨r, ⟨v, hv, hr⟩, key_summary hkey hr⟩

theorem order_nodup : (group key merge items).order.Nodup := by
  induction items using List.reverseRecOn with
  | nil => exact List.nodup_nil
  | append_singleton items v ih =>
    rw [group_concat, Groups.add]
    cases hprev : (group key merge items).byKey.lookup (key v) with
    | some prev => exact ih
    | none =>
      refine List.nodup_append.mpr ⟨ih, List.nodup_singleton _, ?_⟩
      rintro a ha b hb rfl
      obtain rfl := List.mem_singleton.mp hb
      obtain ⟨w, hw, hkey⟩ := mem_order.mp ha
      rw [lookup_group] at hprev
      have hne : items.filter (fun w => key w = key v) ≠ [] :=
        List.ne_nil_of_mem (List.mem_filter.mpr ⟨hw, decide_eq_true hkey⟩)
      obtain ⟨r, hr⟩ := summary_isSome merge hne
      rw [hr] at hprev
      exact nomatch hprev

theorem mem_order_iff : k ∈ (group key merge items).order ↔
    ∃ r, summary merge (items.filter fun v => key v = k) = some r := by
  rw [mem_order]
  constructor
  · rintro ⟨v, hv, hk⟩
    exact summary_isSome merge
      (List.ne_nil_of_mem (List.mem_filter.mpr ⟨hv, decide_eq_true hk⟩))
  · rintro ⟨r, hr⟩
    cases hitems : items.filter fun v => key v = k with
    | nil =>
      rw [hitems] at hr
      exact nomatch hr
    | cons v vs =>
      obtain ⟨hv, hk⟩ := List.mem_filter.mp (hitems ▸ List.mem_cons_self : v ∈ items.filter _)
      exact ⟨v, hv, of_decide_eq_true hk⟩

/-- The groups are given by the summaries, up to their order. -/
theorem values_perm (h : ∀ k, summary merge (items.filter fun v => key v = k) =
      summary merge (items'.filter fun v => key v = k)) :
    (group key merge items).values.Perm (group key merge items').values := by
  have horder : (group key merge items).order.Perm (group key merge items').order := by
    refine (List.perm_ext_iff_of_nodup order_nodup order_nodup).mpr fun k => ?_
    rw [mem_order_iff, mem_order_iff, h]
  have hlookup : (group key merge items).byKey.lookup = (group key merge items').byKey.lookup := by
    funext k
    rw [lookup_group, lookup_group, h]
  rw [Groups.values, Groups.values, hlookup]
  exact horder.filterMap _

/-- Values by distinct keys of theirs have one value of each key at most. -/
theorem filter_filterMap {f : String → Option V} {ks : List String} (hnodup : ks.Nodup)
    (hkey : ∀ k v, f k = some v → key v = k) :
    (ks.filterMap f).filter (fun v => key v = k) = if k ∈ ks then (f k).toList else [] := by
  induction ks with
  | nil => rfl
  | cons k' ks ih =>
    obtain ⟨hk', hks⟩ := List.nodup_cons.mp hnodup
    have hrest := ih hks
    cases hf : f k' with
    | none =>
      rw [List.filterMap_cons_none hf, hrest]
      by_cases hk : k = k'
      · subst hk
        rw [if_neg hk', if_pos List.mem_cons_self, hf]
        rfl
      · simp only [List.mem_cons, hk, false_or]
    | some v =>
      have hv := hkey k' v hf
      rw [List.filterMap_cons_some hf, List.filter_cons, hrest, hv]
      by_cases hk : k = k'
      · subst hk
        rw [if_pos (decide_eq_true rfl), if_neg hk', if_pos List.mem_cons_self, hf]
        rfl
      · rw [if_neg (fun h => hk (of_decide_eq_true h).symm)]
        simp only [List.mem_cons, hk, false_or]

/-- Of each key there is one value, if a merge keeps the key that both items have. -/
theorem filter_values (hkey : ∀ a b, key a = key b → key (merge a b) = key a) :
    (group key merge items).values.filter (fun v => key v = k) =
      (summary merge (items.filter fun v => key v = k)).toList := by
  rw [Groups.values, filter_filterMap order_nodup fun k v hv => key_summary hkey
    (lookup_group.symm.trans hv), lookup_group]
  split_ifs with hk
  · rfl
  · cases hsummary : summary merge (items.filter fun v => key v = k) with
    | none => rfl
    | some r => exact absurd (mem_order_iff.mpr ⟨r, hsummary⟩) hk

/-- What some of a list give is labelled, in order, by some of their labels. -/
theorem map_filterMap_sublist {A B K : Type} {f : A → Option B} {g : B → K} {h : A → K}
    (hlabel : ∀ a b, f a = some b → g b = h a) (l : List A) :
    ((l.filterMap f).map g).Sublist (l.map h) := by
  induction l with
  | nil => exact .slnil
  | cons a l ih =>
    rw [List.map_cons]
    cases hb : f a with
    | none =>
      rw [List.filterMap_cons_none hb]
      exact ih.cons (h a)
    | some b =>
      rw [List.filterMap_cons_some hb, List.map_cons, hlabel a b hb]
      exact ih.cons_cons (h a)

theorem nodup_map_key_values (hkey : ∀ a b, key a = key b → key (merge a b) = key a) :
    ((group key merge items).values.map key).Nodup := by
  have hlabel : ∀ k v, (group key merge items).byKey.lookup k = some v → key v = id k :=
    fun k v hv => key_summary hkey (lookup_group.symm.trans hv)
  have hsub := map_filterMap_sublist hlabel (group key merge items).order
  rw [List.map_id] at hsub
  exact hsub.nodup order_nodup

theorem map_filterMap {f : String → Option V} {ks : List String}
    (h : ∀ k ∈ ks, ∃ v, f k = some v ∧ key v = k) : (ks.filterMap f).map key = ks := by
  induction ks with
  | nil => rfl
  | cons k ks ih =>
    obtain ⟨v, hv, hk⟩ := h k List.mem_cons_self
    rw [List.filterMap_cons_some hv, List.map_cons, hk,
      ih fun k' hk' => h k' (List.mem_cons_of_mem k hk')]

theorem order_eq_firsts : (group key merge items).order = firsts id (items.map key) := by
  induction items using List.reverseRecOn with
  | nil => rfl
  | append_singleton items v ih =>
    rw [List.map_append, List.map_singleton, firsts, group_concat, Groups.add]
    cases hprev : (group key merge items).byKey.lookup (key v) with
    | none =>
      have hnew : key v ∉ (items.map key).map id := by
        rw [List.map_id]
        intro hmem
        obtain ⟨w, hw, hk⟩ := List.mem_map.mp hmem
        obtain ⟨r, hr⟩ := mem_order_iff.mp (mem_order.mpr ⟨w, hw, hk⟩)
        rw [lookup_group, hr] at hprev
        cases hprev
      rw [firstsFrom_concat_new List.not_mem_nil hnew]
      exact congrArg (· ++ [key v]) ih
    | some prev =>
      have hold : key v ∈ (items.map key).map id := by
        rw [List.map_id]
        rw [lookup_group] at hprev
        exact List.mem_map.mpr (mem_order.mp (mem_order_iff.mpr ⟨prev, hprev⟩))
      rw [firstsFrom_concat_old (.inr hold)]
      exact ih

/-- There is one value for each key, in the order in which the keys are met. -/
theorem map_key_values (hkey : ∀ a b, key a = key b → key (merge a b) = key a) :
    (group key merge items).values.map key = firsts id (items.map key) := by
  rw [← order_eq_firsts, Groups.values]
  refine map_filterMap fun k hk => ?_
  obtain ⟨r, hr⟩ := mem_order_iff.mp hk
  exact ⟨r, lookup_group.trans hr, key_summary hkey hr⟩

theorem key_injective (hkey : ∀ a b, key a = key b → key (merge a b) = key a)
    (ha : a ∈ (group key merge items).values) (hb : b ∈ (group key merge items).values)
    (h : key a = key b) : a = b := by
  have hak : a ∈ (group key merge items).values.filter fun v => key v = key b :=
    List.mem_filter.mpr ⟨ha, decide_eq_true h⟩
  have hbk : b ∈ (group key merge items).values.filter fun v => key v = key b :=
    List.mem_filter.mpr ⟨hb, decide_eq_true rfl⟩
  rw [filter_values hkey, Option.mem_toList] at hak hbk
  exact Option.some.inj (hak.symm.trans hbk)

end Keys

end RivicQ.Lib.Groups

namespace RivicQ.Lib.Summaries

open RivicQ.Lib.Tables RivicQ.Lib.Groups

variable {F A : Type} {key : F → String} {merge : F → F → F} {items later : List F}

section Alike

variable [SemilatticeSup A] {obs : F → A} {a b c d : List F}

variable (key obs a b) in
/-- Lists that have the same keys, and the same bounds for what is observed of each of them. -/
structure Alike : Prop where
  keys : ∀ k, k ∈ a.map key ↔ k ∈ b.map key
  bounds : ∀ k m, (∀ f ∈ a, key f = k → obs f ≤ m) ↔ ∀ f ∈ b, key f = k → obs f ≤ m

theorem alike_refl (a : List F) : Alike key obs a a := ⟨fun _ => Iff.rfl, fun _ _ => Iff.rfl⟩

theorem Alike.trans (h : Alike key obs a b) (h' : Alike key obs b c) : Alike key obs a c :=
  ⟨fun k => (h.keys k).trans (h'.keys k), fun k m => (h.bounds k m).trans (h'.bounds k m)⟩

theorem Alike.append (h : Alike key obs a b) (h' : Alike key obs c d) :
    Alike key obs (a ++ c) (b ++ d) := by
  constructor
  · intro k
    rw [List.map_append, List.map_append, List.mem_append, List.mem_append, h.keys, h'.keys]
  · intro k m
    rw [List.forall_mem_append, List.forall_mem_append, h.bounds, h'.bounds]

theorem alike_flatMap {G : Type} {f g : G → List F} {gs : List G}
    (h : ∀ x ∈ gs, Alike key obs (f x) (g x)) : Alike key obs (gs.flatMap f) (gs.flatMap g) := by
  induction gs with
  | nil => exact alike_refl []
  | cons x gs ih =>
    rw [List.flatMap_cons, List.flatMap_cons]
    exact (h x List.mem_cons_self).append (ih fun y hy => h y (List.mem_cons_of_mem x hy))

/-- What is there already adds nothing. -/
theorem alike_absorb (h : b ⊆ a) : Alike key obs (a ++ b) a := by
  constructor
  · intro k
    rw [List.map_append, List.mem_append]
    exact or_iff_left_of_imp fun hk => List.map_subset key h hk
  · intro k m
    rw [List.forall_mem_append]
    exact and_iff_left_of_imp fun ha f hf => ha f (h hf)

theorem alike_perm (h : a.Perm b) : Alike key obs a b := by
  constructor
  · intro k
    exact (h.map key).mem_iff
  · intro k m
    exact forall_congr' fun f => by rw [h.mem_iff]

/-- What the summary of a key is bounded by. -/
theorem summary_le_iff (hobs : ∀ u v, obs (merge u v) = obs u ⊔ obs v) {r : F}
    (h : summary merge items = some r) (m : A) : obs r ≤ m ↔ ∀ f ∈ items, obs f ≤ m := by
  refine summary_rule (fun vs r => obs r ≤ m ↔ ∀ f ∈ vs, obs f ≤ m) (fun v => ?_)
    (fun vs r v ih => ?_) h
  · rw [List.forall_mem_singleton]
  · rw [hobs, sup_le_iff, ih, List.forall_mem_append, List.forall_mem_singleton]

/-- Grouping keeps the keys and the bounds. -/
theorem alike_group (hkey : ∀ u v, key u = key v → key (merge u v) = key u)
    (hobs : ∀ u v, obs (merge u v) = obs u ⊔ obs v) (items : List F) :
    Alike key obs (group key merge items).values items := by
  refine ⟨fun k => mem_map_key_values hkey, fun k m => ⟨fun h f hf hk => ?_, fun h r hr hk => ?_⟩⟩
  · have hne : items.filter (fun g => key g = key f) ≠ [] :=
      List.ne_nil_of_mem (List.mem_filter.mpr ⟨hf, decide_eq_true rfl⟩)
    obtain ⟨r, hr⟩ := summary_isSome merge hne
    have hle := h r (mem_values.mpr ⟨f, hf, hr⟩) ((key_summary hkey hr).trans hk)
    exact (summary_le_iff hobs hr m).mp hle f (List.mem_filter.mpr ⟨hf, decide_eq_true rfl⟩)
  · obtain ⟨f, hf, hsummary⟩ := mem_values.mp hr
    refine (summary_le_iff hobs hsummary m).mpr fun g hg => ?_
    obtain ⟨hmem, hgk⟩ := List.mem_filter.mp hg
    exact h g hmem ((of_decide_eq_true hgk).trans ((key_summary hkey hsummary).symm.trans hk))

/-- Where a merge takes the greater one, the summary has the greatest of all. -/
theorem isGreatest_summary {B : Type} [LinearOrder B] {obs : F → B}
    (hobs : ∀ u v, obs (merge u v) = max (obs u) (obs v)) {r : F}
    (h : summary merge items = some r) : IsGreatest {m | ∃ f ∈ items, obs f = m} (obs r) := by
  refine summary_rule (fun vs r => IsGreatest {m | ∃ f ∈ vs, obs f = m} (obs r)) (fun v => ?_)
    (fun vs r v ih => ?_) h
  · refine ⟨⟨v, List.mem_singleton_self v, rfl⟩, ?_⟩
    rintro m ⟨w, hw, rfl⟩
    rw [List.mem_singleton.mp hw]
  · obtain ⟨⟨w, hw, heq⟩, hupper⟩ := ih
    rw [hobs]
    constructor
    · obtain hmax | hmax := (le_total (obs v) (obs r)).imp max_eq_left max_eq_right
      · exact ⟨w, List.mem_append_left _ hw, heq.trans hmax.symm⟩
      · exact ⟨v, List.mem_append_right _ (List.mem_singleton_self v), hmax.symm⟩
    · rintro m ⟨w', hw', rfl⟩
      obtain hw' | hw' := List.mem_append.mp hw'
      · exact (hupper ⟨w', hw', rfl⟩).trans (le_max_left _ _)
      · rw [List.mem_singleton.mp hw']
        exact le_max_right _ _

/-- One for each key is the least bound of all of the key. -/
theorem isLUB_of_alike (h : Alike key obs a b) (hnodup : (a.map key).Nodup) {f : F} (hf : f ∈ a) :
    IsLUB {m | ∃ g ∈ b, key g = key f ∧ obs g = m} (obs f) := by
  have hbound : ∀ m, obs f ≤ m ↔ ∀ g ∈ b, key g = key f → obs g ≤ m := by
    intro m
    rw [← h.bounds]
    constructor
    · intro hm g hg hk
      rwa [List.inj_on_of_nodup_map hnodup hg hf hk]
    · exact fun hm => hm f hf rfl
  constructor
  · rintro m ⟨g, hg, hk, rfl⟩
    exact (hbound _).mp (le_refl _) g hg hk
  · exact fun m hm => (hbound m).mpr fun g hg hk => hm ⟨g, hg, hk, rfl⟩

end Alike

section Absorption

theorem filter_of_nodup (hnodup : (items.map key).Nodup) {f : F} (hf : f ∈ items) :
    (items.filter fun g => key g = key f) = [f] := by
  induction items with
  | nil => exact absurd hf List.not_mem_nil
  | cons g items ih =>
    obtain ⟨hnew, hrest⟩ := List.nodup_cons.mp hnodup
    obtain rfl | hf := List.mem_cons.mp hf
    · have hnil : (items.filter fun g => key g = key f) = [] := by
        refine List.filter_eq_nil_iff.mpr fun g hg hk => ?_
        exact hnew (of_decide_eq_true hk ▸ List.mem_map_of_mem hg)
      rw [List.filter_cons, hnil]
      exact if_pos (decide_eq_true rfl)
    · have hne : key g ≠ key f := fun hk => hnew (hk ▸ List.mem_map_of_mem hf)
      rw [List.filter_cons_of_neg (by rwa [decide_eq_true_eq]), ih hrest hf]

/-- The keys are met in their order. -/
theorem order_of_nodup (hnodup : (items.map key).Nodup) :
    (group key merge items).order = items.map key := by
  induction items using List.reverseRecOn with
  | nil => rfl
  | append_singleton items v ih =>
    rw [List.map_append] at hnodup ⊢
    obtain ⟨hitems, -, hnew⟩ := List.nodup_append.mp hnodup
    have hnone : (group key merge items).byKey.lookup (key v) = none := by
      rw [lookup_group, List.filter_eq_nil_iff.mpr fun w hw hk => ?_]
      · rfl
      · exact hnew _ (List.mem_map_of_mem hw) _ (List.mem_singleton_self _) (of_decide_eq_true hk)
    rw [group_concat, Groups.add, hnone, ← ih hitems]
    rfl

theorem order_append_known (h : ∀ e ∈ later, key e ∈ items.map key) :
    (group key merge (items ++ later)).order = (group key merge items).order := by
  induction later using List.reverseRecOn with
  | nil => rw [List.append_nil]
  | append_singleton later v ih =>
    obtain ⟨hlater, hv⟩ := List.forall_mem_append.mp h
    have hmem : key v ∈ (group key merge (items ++ later)).order := by
      obtain ⟨w, hw, hk⟩ := List.mem_map.mp (hv v (List.mem_singleton_self v))
      exact mem_order.mpr ⟨w, List.mem_append_left later hw, hk⟩
    obtain ⟨r, hr⟩ := mem_order_iff.mp hmem
    rw [← List.append_assoc, group_concat, Groups.add, lookup_group, hr]
    exact ih hlater

theorem foldl_absorbed {f : F} (h : ∀ e ∈ later, merge f e = f) : later.foldl merge f = f := by
  induction later with
  | nil => rfl
  | cons e later ih =>
    rw [List.foldl_cons, h e List.mem_cons_self]
    exact ih fun e' he' => h e' (List.mem_cons_of_mem e he')

/-- Items of different keys stay as they are, if the later ones add nothing to them. -/
theorem values_absorbed (hnodup : (items.map key).Nodup)
    (h : ∀ e ∈ later, key e ∈ items.map key ∧ ∀ f ∈ items, key f = key e → merge f e = f) :
    (group key merge (items ++ later)).values = items := by
  rw [Groups.values, order_append_known fun e he => (h e he).1, order_of_nodup hnodup,
    List.filterMap_map]
  have hlookup : ∀ f ∈ items,
      (group key merge (items ++ later)).byKey.lookup (key f) = some f := by
    intro f hf
    rw [lookup_group, List.filter_append, filter_of_nodup hnodup hf]
    change some ((later.filter fun g => key g = key f).foldl merge f) = some f
    rw [foldl_absorbed fun e he => ?_]
    obtain ⟨he, hk⟩ := List.mem_filter.mp he
    exact (h e he).2 f hf (of_decide_eq_true hk).symm
  exact (List.filterMap_congr hlookup).trans List.filterMap_some

end Absorption

end RivicQ.Lib.Summaries
