import Mathlib.Data.List.Nodup
import RivicQ.Cryptoart.Graphs
import RivicQ.Lib.Framing

namespace RivicQ.Cryptoart.WellFormed

open RivicQ.Lib.GoStrings RivicQ.Lib.Tables RivicQ.Lib.Framing RivicQ.Cryptoart.Graphs

/-- The key under which an edge is kept. -/
def key (r : Relation) : String := r.type.text ++ "\x00" ++ r.source ++ "\x00" ++ r.target

/-- An object of the graph has the id. -/
def Present (g : Graph) (id : String) : Prop := ∃ o ∈ g.objects, o.id = id

/-- The hidden maps of a graph agree with its objects and its relations. -/
structure WF (g : Graph) : Prop where
  index : ∀ {id i}, g.index.lookup id = some i ↔ ∃ o, g.objects[i]? = some o ∧ o.id = id
  nonblank : ∀ o ∈ g.objects, trimSpace o.id ≠ ""
  clean : ∀ o ∈ g.objects, '\x00' ∉ o.id.toList
  edges : ∀ {k}, k ∈ g.edges ↔ ∃ r ∈ g.relations, key r = k
  ends : ∀ r ∈ g.relations, Present g r.source ∧ Present g r.target
  irreflexive : ∀ r ∈ g.relations, r.source ≠ r.target
  distinct : (g.relations.map key).Nodup

variable {g : Graph} {o obj : Object} {id source target evidence : String} {type : RelationType}
  {r r' : Relation} {i : Nat} {os : List Object} {rs : List Relation}

theorem wf_empty : WF {} := by
  constructor
  · intro id i
    refine iff_of_false (fun h => nomatch h) ?_
    rintro ⟨o, h, -⟩
    exact nomatch h
  · exact fun o ho => nomatch ho
  · exact fun o ho => nomatch ho
  · intro k
    refine iff_of_false List.not_mem_nil ?_
    rintro ⟨r, h, -⟩
    exact nomatch h
  · exact fun r hr => nomatch hr
  · exact fun r hr => nomatch hr
  · exact List.nodup_nil

section Objects

theorem WF.lookup_eq_none_iff (h : WF g) : g.index.lookup id = none ↔ ¬ Present g id := by
  constructor
  · rintro hnone ⟨o, ho, rfl⟩
    obtain ⟨i, hi⟩ := List.mem_iff_getElem?.mp ho
    exact nomatch hnone.symm.trans (h.index.mpr ⟨o, hi, rfl⟩)
  · intro habsent
    cases hi : g.index.lookup id with
    | none => rfl
    | some i =>
      obtain ⟨o, ho, hid⟩ := h.index.mp hi
      exact absurd ⟨o, List.mem_of_getElem? ho, hid⟩ habsent

theorem WF.get_eq_some_iff (h : WF g) : g.get id = some o ↔ o ∈ g.objects ∧ o.id = id := by
  rw [Graph.get, Option.bind_eq_some_iff]
  constructor
  · rintro ⟨i, hi, ho⟩
    obtain ⟨o', ho', hid⟩ := h.index.mp hi
    obtain rfl := Option.some.inj (ho.symm.trans ho')
    exact ⟨List.mem_of_getElem? ho, hid⟩
  · rintro ⟨ho, hid⟩
    obtain ⟨i, hi⟩ := List.mem_iff_getElem?.mp ho
    exact ⟨i, h.index.mpr ⟨o, hi, hid⟩, hi⟩

/-- An id is that of one object at most. -/
theorem WF.unique (h : WF g) (ho : o ∈ g.objects) (hobj : obj ∈ g.objects) (hid : o.id = obj.id) :
    o = obj :=
  Option.some.inj ((h.get_eq_some_iff.mpr ⟨ho, hid⟩).symm.trans
    (h.get_eq_some_iff.mpr ⟨hobj, rfl⟩))

theorem WF.nodup (h : WF g) : (g.objects.map Object.id).Nodup := by
  rw [List.nodup_iff_getElem?_ne_getElem?]
  intro i j hij hj heq
  rw [List.length_map] at hj
  rw [List.getElem?_map, List.getElem?_map, List.getElem?_eq_getElem hj,
    List.getElem?_eq_getElem (hij.trans hj)] at heq
  have hi := h.index.mpr ⟨_, List.getElem?_eq_getElem (hij.trans hj), rfl⟩
  have hj' := h.index.mpr ⟨_, List.getElem?_eq_getElem hj, rfl⟩
  rw [Option.some.inj heq, hj'] at hi
  exact absurd (Option.some.inj hi) (Nat.ne_of_gt hij)

/-- What adding an object does: nothing, a replacement, or a new object. -/
theorem add_cases (g : Graph) (obj : Object) :
    (trimSpace obj.id = "" ∧ g.add obj = g) ∨
    (trimSpace obj.id ≠ "" ∧ ∃ i, g.index.lookup obj.id = some i ∧
      g.add obj = { g with objects := g.objects.set i obj }) ∨
    (trimSpace obj.id ≠ "" ∧ g.index.lookup obj.id = none ∧
      g.add obj = { g with
        index := g.index.insert obj.id g.objects.length, objects := g.objects ++ [obj] }) := by
  unfold Graph.add
  by_cases hblank : trimSpace obj.id = ""
  · exact .inl ⟨hblank, if_pos hblank⟩
  · rw [if_neg hblank]
    cases hi : g.index.lookup obj.id with
    | none => exact .inr (.inr ⟨hblank, rfl, rfl⟩)
    | some i => exact .inr (.inl ⟨hblank, i, rfl, rfl⟩)

theorem relations_add (g : Graph) (obj : Object) :
    (g.add obj).relations = g.relations ∧ (g.add obj).edges = g.edges := by
  obtain ⟨-, h⟩ | ⟨-, i, -, h⟩ | ⟨-, -, h⟩ := add_cases g obj <;> rw [h] <;> exact ⟨rfl, rfl⟩

theorem present_add (h : WF g) (hid : Present g id) : Present (g.add obj) id := by
  obtain ⟨o, ho, rfl⟩ := hid
  obtain ⟨-, hadd⟩ | ⟨-, i, hi, hadd⟩ | ⟨-, -, hadd⟩ := add_cases g obj <;> rw [hadd]
  · exact ⟨o, ho, rfl⟩
  · obtain ⟨old, hold, hid⟩ := h.index.mp hi
    obtain ⟨j, hj⟩ := List.mem_iff_getElem?.mp ho
    by_cases hij : i = j
    · subst hij
      obtain rfl := Option.some.inj (hold.symm.trans hj)
      exact ⟨obj, List.mem_of_getElem? (i := i) (by
        rw [List.getElem?_set_self (List.getElem?_eq_some_iff.mp hold).1]), hid.symm⟩
    · exact ⟨o, List.mem_of_getElem? (i := j) (by rw [List.getElem?_set_ne hij, hj]), rfl⟩
  · exact ⟨o, List.mem_append_left _ ho, rfl⟩

theorem wf_add (h : WF g) (hclean : '\x00' ∉ obj.id.toList) : WF (g.add obj) := by
  have hends : ∀ r ∈ g.relations, Present (g.add obj) r.source ∧ Present (g.add obj) r.target :=
    fun r hr => ⟨present_add h (h.ends r hr).1, present_add h (h.ends r hr).2⟩
  obtain ⟨-, hadd⟩ | ⟨hblank, i, hi, hadd⟩ | ⟨hblank, hnone, hadd⟩ := add_cases g obj <;>
    rw [hadd] at hends ⊢
  · exact h
  · obtain ⟨old, hold, hid⟩ := h.index.mp hi
    have hlt := (List.getElem?_eq_some_iff.mp hold).1
    constructor
    · intro id j
      rw [h.index]
      by_cases hij : i = j
      · subst hij
        simp only [List.getElem?_set_self hlt, hold, Option.some.injEq, exists_eq_left', hid]
      · simp only [List.getElem?_set_ne hij]
    · exact fun o ho => (List.mem_or_eq_of_mem_set ho).elim (h.nonblank o) fun heq => heq ▸ hblank
    · exact fun o ho => (List.mem_or_eq_of_mem_set ho).elim (h.clean o) fun heq => heq ▸ hclean
    · exact h.edges
    · exact hends
    · exact h.irreflexive
    · exact h.distinct
  · constructor
    · intro id j
      rw [lookup_insert_if]
      by_cases hj : j < g.objects.length
      · rw [List.getElem?_append_left hj, ← h.index]
        split_ifs with hid
        · rw [hid, hnone]
          exact iff_of_false (fun heq => absurd (Option.some.inj heq) (Nat.ne_of_gt hj)) nofun
        · exact Iff.rfl
      · have hlookup : g.index.lookup id ≠ some j := by
          intro heq
          obtain ⟨o, ho, -⟩ := h.index.mp heq
          exact hj (List.getElem?_eq_some_iff.mp ho).1
        rw [List.getElem?_append_right (Nat.not_lt.mp hj), List.getElem?_singleton]
        split_ifs with hid hzero hzero
        · exact iff_of_true (congrArg some (Nat.le_antisymm (Nat.not_lt.mp hj)
            (Nat.sub_eq_zero_iff_le.mp hzero))) ⟨obj, rfl, hid.symm⟩
        · refine iff_of_false (fun heq => hzero ?_) (fun hnone => ?_)
          · rw [← Option.some.inj heq, Nat.sub_self]
          · obtain ⟨o, heq, -⟩ := hnone
            exact nomatch heq
        · refine iff_of_false hlookup ?_
          rintro ⟨o, heq, hoid⟩
          obtain rfl := Option.some.inj heq
          exact hid hoid.symm
        · refine iff_of_false hlookup ?_
          rintro ⟨o, heq, -⟩
          exact nomatch heq
    · exact List.forall_mem_append.mpr ⟨h.nonblank, List.forall_mem_singleton.mpr hblank⟩
    · exact List.forall_mem_append.mpr ⟨h.clean, List.forall_mem_singleton.mpr hclean⟩
    · exact h.edges
    · exact hends
    · exact h.irreflexive
    · exact h.distinct

theorem get_add (h : WF g) (hid : trimSpace id ≠ "") :
    (g.add obj).get id = if obj.id = id then some obj else g.get id := by
  obtain ⟨hblank, hadd⟩ | ⟨-, i, hi, hadd⟩ | ⟨-, hnone, hadd⟩ := add_cases g obj <;> rw [hadd]
  · rw [if_neg]
    rintro rfl
    exact hid hblank
  · obtain ⟨old, hold, holdid⟩ := h.index.mp hi
    have hlt := (List.getElem?_eq_some_iff.mp hold).1
    split_ifs with heq
    · rw [Graph.get, ← heq, hi, Option.bind_some, List.getElem?_set_self hlt]
    · rw [Graph.get, Graph.get]
      cases hj : g.index.lookup id with
      | none => rfl
      | some j =>
        have hij : i ≠ j := by
          rintro rfl
          obtain ⟨o, ho, hoid⟩ := h.index.mp hj
          rw [hold] at ho
          exact heq (holdid.symm.trans (Option.some.inj ho ▸ hoid))
        rw [Option.bind_some, Option.bind_some, List.getElem?_set_ne hij]
  · rw [Graph.get, Graph.get, lookup_insert_if]
    split_ifs with hid' heq heq
    · rw [Option.bind_some, List.getElem?_concat_length]
    · exact absurd hid'.symm heq
    · exact absurd heq.symm hid'
    · cases hj : g.index.lookup id with
      | none => rfl
      | some j =>
        obtain ⟨o, ho, -⟩ := h.index.mp hj
        have hlt := (List.getElem?_eq_some_iff.mp ho).1
        rw [Option.bind_some, Option.bind_some, List.getElem?_append_left hlt]

theorem WF.get_blank (h : WF g) (hid : trimSpace id = "") : g.get id = none := by
  cases hget : g.get id with
  | none => rfl
  | some o =>
    obtain ⟨ho, rfl⟩ := h.get_eq_some_iff.mp hget
    exact absurd hid (h.nonblank o ho)

theorem wf_addAll (h : WF g) (hclean : ∀ o ∈ os, '\x00' ∉ o.id.toList) :
    WF (os.foldl Graph.add g) := by
  induction os generalizing g with
  | nil => exact h
  | cons o os ih =>
    obtain ⟨ho, hos⟩ := List.forall_mem_cons.mp hclean
    exact ih (wf_add h ho) hos

/-- The last object of a list that has an id. -/
def last (id : String) (os : List Object) : Option Object := (os.filter (·.id = id)).getLast?

theorem last_cons : last id (o :: os) = (last id os).or (if o.id = id then some o else none) := by
  unfold last
  rw [List.filter_cons]
  by_cases hid : o.id = id
  · rw [if_pos (decide_eq_true hid), if_pos hid, List.getLast?_cons]
    cases (os.filter fun o => decide (o.id = id)).getLast? <;> rfl
  · rw [if_neg (by simpa using hid), if_neg hid, Option.or_none]

theorem last_append {os' : List Object} : last id (os ++ os') = (last id os').or (last id os) := by
  unfold last
  rw [List.filter_append, List.getLast?_append]

theorem get_addAll (h : WF g) (hclean : ∀ o ∈ os, '\x00' ∉ o.id.toList)
    (hid : trimSpace id ≠ "") : (os.foldl Graph.add g).get id = (last id os).or (g.get id) := by
  induction os generalizing g with
  | nil => rfl
  | cons o os ih =>
    obtain ⟨ho, hos⟩ := List.forall_mem_cons.mp hclean
    rw [List.foldl_cons, ih (wf_add h ho) hos, get_add h hid, last_cons, Option.or_assoc]
    congr 1
    split_ifs <;> rfl

theorem relations_addAll (g : Graph) (os : List Object) :
    (os.foldl Graph.add g).relations = g.relations ∧ (os.foldl Graph.add g).edges = g.edges := by
  induction os generalizing g with
  | nil => exact ⟨rfl, rfl⟩
  | cons o os ih =>
    obtain ⟨hrelations, hedges⟩ := relations_add g o
    exact ⟨(ih _).1.trans hrelations, (ih _).2.trans hedges⟩

/-- Adding an object that is there already changes nothing. -/
theorem add_self (h : WF g) (hobj : obj ∈ g.objects) : g.add obj = g := by
  obtain ⟨-, hadd⟩ | ⟨-, i, hi, hadd⟩ | ⟨-, hnone, -⟩ := add_cases g obj
  · exact hadd
  · obtain ⟨o, ho, hid⟩ := h.index.mp hi
    obtain rfl := h.unique (List.mem_of_getElem? ho) hobj hid
    have hlt := (List.getElem?_eq_some_iff.mp ho).1
    have hset : g.objects.set i o = g.objects := by
      rw [← Option.some.inj ((List.getElem?_eq_getElem hlt).symm.trans ho), List.set_getElem_self]
    rw [hadd, hset]
  · exact absurd ⟨obj, hobj, rfl⟩ (h.lookup_eq_none_iff.mp hnone)

theorem addAll_self (h : WF g) (hos : ∀ o ∈ os, o ∈ g.objects) : os.foldl Graph.add g = g := by
  induction os with
  | nil => rfl
  | cons o os ih =>
    obtain ⟨ho, hos⟩ := List.forall_mem_cons.mp hos
    rw [List.foldl_cons, add_self h ho, ih hos]

end Objects

section Relations

theorem WF.absent_empty (h : WF g) : ¬ Present g "" := by
  rintro ⟨o, ho, hid⟩
  exact h.nonblank o ho (by rw [hid]; rfl)

/-- What relating two ids does: nothing, or a new relation. -/
theorem relate_cases (h : WF g) (source target : String) (type : RelationType)
    (evidence : String) :
    (g.relate source target type evidence = g ∧
      (Present g source → Present g target → source ≠ target →
        key ⟨source, target, type, evidence⟩ ∈ g.edges)) ∨
    (Present g source ∧ Present g target ∧ source ≠ target ∧
      key ⟨source, target, type, evidence⟩ ∉ g.edges ∧
      g.relate source target type evidence = { g with
        edges := key ⟨source, target, type, evidence⟩ :: g.edges
        relations := g.relations ++ [⟨source, target, type, evidence⟩] }) := by
  unfold Graph.relate
  by_cases hends : source = "" ∨ target = "" ∨ source = target
  · refine .inl ⟨if_pos hends, fun hsource htarget hne => ?_⟩
    obtain rfl | rfl | heq := hends
    · exact absurd hsource h.absent_empty
    · exact absurd htarget h.absent_empty
    · exact absurd heq hne
  · rw [if_neg hends]
    by_cases habsent : g.index.lookup source = none ∨ g.index.lookup target = none
    · refine .inl ⟨if_pos habsent, fun hsource htarget _ => ?_⟩
      obtain hnone | hnone := habsent
      · exact absurd hsource (h.lookup_eq_none_iff.mp hnone)
      · exact absurd htarget (h.lookup_eq_none_iff.mp hnone)
    · rw [if_neg habsent]
      obtain ⟨hsource, htarget⟩ := not_or.mp habsent
      rw [h.lookup_eq_none_iff, not_not] at hsource htarget
      by_cases hedge : key ⟨source, target, type, evidence⟩ ∈ g.edges
      · exact .inl ⟨if_pos hedge, fun _ _ _ => hedge⟩
      · exact .inr ⟨hsource, htarget, fun heq => hends (.inr (.inr heq)), hedge, if_neg hedge⟩

theorem objects_relate (g : Graph) (source target : String) (type : RelationType)
    (evidence : String) : (g.relate source target type evidence).objects = g.objects ∧
      (g.relate source target type evidence).index = g.index := by
  unfold Graph.relate
  dsimp only
  split_ifs <;> exact ⟨rfl, rfl⟩

theorem wf_relate (h : WF g) (source target : String) (type : RelationType) (evidence : String) :
    WF (g.relate source target type evidence) := by
  obtain ⟨heq, -⟩ | ⟨hsource, htarget, hne, hedge, heq⟩ := relate_cases h source target type evidence
  · rw [heq]
    exact h
  · rw [heq]
    refine ⟨h.index, h.nonblank, h.clean, fun {k} => ?_, ?_, ?_, ?_⟩
    · simp only [List.mem_cons, h.edges, List.mem_append, or_and_right, exists_or,
        List.not_mem_nil, or_false, exists_eq_left]
      rw [or_comm, eq_comm]
    · exact List.forall_mem_append.mpr ⟨h.ends, List.forall_mem_singleton.mpr ⟨hsource, htarget⟩⟩
    · exact List.forall_mem_append.mpr ⟨h.irreflexive, List.forall_mem_singleton.mpr hne⟩
    · rw [List.map_append, List.map_singleton]
      refine List.nodup_append.mpr ⟨h.distinct, List.nodup_singleton _, ?_⟩
      rintro k hk k' hk' rfl
      rw [List.mem_singleton] at hk'
      exact hedge (hk' ▸ h.edges.mpr (List.mem_map.mp hk))

theorem objects_relateAll (g : Graph) (rs : List Relation) :
    (g.relateAll rs).objects = g.objects ∧ (g.relateAll rs).index = g.index := by
  induction rs generalizing g with
  | nil => exact ⟨rfl, rfl⟩
  | cons r rs ih =>
    obtain ⟨hobjects, hindex⟩ := objects_relate g r.source r.target r.type r.evidence
    exact ⟨(ih _).1.trans hobjects, (ih _).2.trans hindex⟩

theorem wf_relateAll (h : WF g) (rs : List Relation) : WF (g.relateAll rs) := by
  induction rs generalizing g with
  | nil => exact h
  | cons r rs ih => exact ih (wf_relate h r.source r.target r.type r.evidence)

/-- The relations of a list join a graph that has none of them if their ends are there. -/
theorem relations_relateAll (h : WF g) (hdistinct : (rs.map key).Nodup)
    (hne : ∀ r ∈ rs, r.source ≠ r.target) (hnew : ∀ r ∈ rs, key r ∉ g.edges) :
    r ∈ (g.relateAll rs).relations ↔
      r ∈ g.relations ∨ (r ∈ rs ∧ Present g r.source ∧ Present g r.target) := by
  induction rs generalizing g with
  | nil =>
    simp only [Graph.relateAll, List.foldl_nil, List.not_mem_nil, false_and, or_false]
  | cons r₀ rs ih =>
    obtain ⟨hfirst, hrest⟩ := List.nodup_cons.mp hdistinct
    obtain ⟨hne₀, hne⟩ := List.forall_mem_cons.mp hne
    obtain ⟨hnew₀, hnew⟩ := List.forall_mem_cons.mp hnew
    have hpresent : ∀ id, Present (g.relate r₀.source r₀.target r₀.type r₀.evidence) id ↔
        Present g id := by
      intro id
      rw [Present, (objects_relate g r₀.source r₀.target r₀.type r₀.evidence).1, Present]
    have hstep : r ∈ (g.relate r₀.source r₀.target r₀.type r₀.evidence).relations ↔
        r ∈ g.relations ∨ (r = r₀ ∧ Present g r.source ∧ Present g r.target) := by
      obtain ⟨heq, hold⟩ | ⟨hsource, htarget, -, -, heq⟩ :=
        relate_cases h r₀.source r₀.target r₀.type r₀.evidence
      · rw [heq]
        refine (or_iff_left ?_).symm
        rintro ⟨rfl, hsource, htarget⟩
        exact hnew₀ (hold hsource htarget hne₀)
      · rw [heq, List.mem_append, List.mem_singleton]
        refine or_congr_right (iff_self_and.mpr ?_)
        rintro rfl
        exact ⟨hsource, htarget⟩
    have hrest' : ∀ r ∈ rs, key r ∉ (g.relate r₀.source r₀.target r₀.type r₀.evidence).edges := by
      intro r hr
      obtain ⟨heq, -⟩ | ⟨-, -, -, -, heq⟩ :=
        relate_cases h r₀.source r₀.target r₀.type r₀.evidence
      · rw [heq]
        exact hnew r hr
      · rw [heq, List.mem_cons, not_or]
        exact ⟨fun hkey => hfirst (hkey ▸ List.mem_map_of_mem hr), hnew r hr⟩
    change r ∈ (Graph.relateAll _ rs).relations ↔ _
    rw [ih (wf_relate h ..) hrest hne hrest', hstep, hpresent, hpresent, List.mem_cons, or_assoc,
      or_and_right]

theorem edges_subset_relateAll (g : Graph) (rs : List Relation) :
    ∀ k ∈ g.edges, k ∈ (g.relateAll rs).edges := by
  induction rs generalizing g with
  | nil => exact fun k hk => hk
  | cons r rs ih =>
    refine fun k hk => ih _ k ?_
    unfold Graph.relate
    dsimp only
    split_ifs
    · exact hk
    · exact hk
    · exact hk
    · exact List.mem_cons_of_mem _ hk

theorem mem_edges_relate (h : WF g) (hsource : Present g r.source) (htarget : Present g r.target)
    (hne : r.source ≠ r.target) :
    key r ∈ (g.relate r.source r.target r.type r.evidence).edges := by
  obtain ⟨heq, hold⟩ | ⟨-, -, -, -, heq⟩ := relate_cases h r.source r.target r.type r.evidence
  · rw [heq]
    exact hold hsource htarget hne
  · rw [heq]
    exact List.mem_cons_self

theorem mem_edges_relateAll (h : WF g) (hr : r ∈ rs) (hsource : Present g r.source)
    (htarget : Present g r.target) (hne : r.source ≠ r.target) :
    key r ∈ (g.relateAll rs).edges := by
  induction rs generalizing g with
  | nil => exact nomatch hr
  | cons r₀ rs ih =>
    obtain rfl | hr := List.mem_cons.mp hr
    · exact edges_subset_relateAll _ rs _ (mem_edges_relate h hsource htarget hne)
    · have hobjects := (objects_relate g r₀.source r₀.target r₀.type r₀.evidence).1
      refine ih (wf_relate h ..) hr ?_ ?_
      · rwa [Present, hobjects]
      · rwa [Present, hobjects]

/-- Relations that are there already change nothing. -/
theorem relateAll_self (h : WF g) (hrs : ∀ r ∈ rs, Present g r.source → Present g r.target →
    r.source ≠ r.target → key r ∈ g.edges) : g.relateAll rs = g := by
  induction rs with
  | nil => rfl
  | cons r rs ih =>
    obtain ⟨hr, hrs⟩ := List.forall_mem_cons.mp hrs
    have hone : g.relate r.source r.target r.type r.evidence = g := by
      obtain ⟨heq, -⟩ | ⟨hsource, htarget, hne, hedge, -⟩ :=
        relate_cases h r.source r.target r.type r.evidence
      · exact heq
      · exact absurd (hr hsource htarget hne) hedge
    change Graph.relateAll (g.relate ..) rs = g
    rw [hone, ih hrs]

end Relations

end RivicQ.Cryptoart.WellFormed
