import RivicQ.Cryptoart.WellFormed

namespace RivicQ.Properties.Graphs

open RivicQ.Lib.GoStrings RivicQ.Cryptoart.Graphs RivicQ.Cryptoart.WellFormed

/-- How a graph has come about. -/
inductive Script where
  | new
  | add (s : Script) (obj : Object)
  | relate (s : Script) (source target : String) (type : RelationType) (evidence : String)
  | merge (s other : Script)
  | view (s : Script) (f : Filters)

variable (cm : CaseMap)

def build : Script → Graph
  | .new => {}
  | .add s obj => (build s).add obj
  | .relate s source target type evidence => (build s).relate source target type evidence
  | .merge s other => (build s).merge (build other)
  | .view s f => (build s).view cm f

/-- The objects that were added, in their order; a merge adds those of the other graph, and a
view those that it retains. -/
def added : Script → List Object
  | .new => []
  | .add s obj => added s ++ [obj]
  | .relate s _ _ _ _ => added s
  | .merge s other => added s ++ (build cm other).objects
  | .view s f => (build cm s).objects.filter (f.retains cm)

/-- No id has a NUL byte. -/
def Clean : Script → Prop
  | .new => True
  | .add s obj => Clean s ∧ '\x00' ∉ obj.id.toList
  | .relate s _ _ _ _ => Clean s
  | .merge s other => Clean s ∧ Clean other
  | .view s _ => Clean s

/-- Two relations of one type between the same ids. -/
def SameEdge (r r' : Relation) : Prop :=
  r.type = r'.type ∧ r.source = r'.source ∧ r.target = r'.target

structure Sound (s : Script) : Prop where
  unique : ((build cm s).objects.map Object.id).Nodup
  nonblank : ∀ o ∈ (build cm s).objects, trimSpace o.id ≠ ""
  get : ∀ id, (build cm s).get id = if trimSpace id = "" then none else last id (added cm s)
  ends : ∀ r ∈ (build cm s).relations,
    Present (build cm s) r.source ∧ Present (build cm s) r.target
  irreflexive : ∀ r ∈ (build cm s).relations, r.source ≠ r.target
  distinct : (build cm s).relations.Pairwise fun r r' => ¬ SameEdge r r'
  related : ∀ source target type evidence, Present (build cm s) source →
    Present (build cm s) target → source ≠ target →
    ∃ r ∈ ((build cm s).relate source target type evidence).relations,
      SameEdge r ⟨source, target, type, evidence⟩
  idempotent : ∀ other, Clean other →
    ((build cm s).merge (build cm other)).merge (build cm other) =
      (build cm s).merge (build cm other)
  retained : ∀ f r, r ∈ ((build cm s).view cm f).relations ↔ r ∈ (build cm s).relations ∧
    Present ((build cm s).view cm f) r.source ∧ Present ((build cm s).view cm f) r.target

variable {cm} {g other : Graph} {s : Script} {r r' : Relation} {f : Filters} {id : String}

theorem clean_text (type : RelationType) : '\x00' ∉ type.text.toList := by
  cases type <;> decide

/-- Keys of edges tell their types and their ends. -/
theorem key_inj (hr : '\x00' ∉ r.source.toList) (hr' : '\x00' ∉ r'.source.toList) :
    key r = key r' ↔ SameEdge r r' := by
  constructor
  · intro h
    have hlist := congrArg String.toList h
    simp only [key, String.toList_append, List.append_assoc] at hlist
    obtain ⟨htype, hrest⟩ :=
      Lib.Framing.append_cons_inj (clean_text r.type) (clean_text r'.type) hlist
    obtain ⟨hsource, htarget⟩ := Lib.Framing.append_cons_inj hr hr' hrest
    have htext : ∀ t t' : RelationType, t.text = t'.text → t = t' := by
      intro t t'
      cases t <;> cases t' <;> decide
    exact ⟨htext _ _ (String.toList_injective htype), String.toList_injective hsource,
      String.toList_injective htarget⟩
  · rintro ⟨htype, hsource, htarget⟩
    rw [key, htype, hsource, htarget, key]

theorem wf_merge (h : WF g) (hother : WF other) : WF (g.merge other) :=
  wf_relateAll (wf_addAll h hother.clean) other.relations

theorem wf_view (h : WF g) : WF (g.view cm f) :=
  wf_relateAll (wf_addAll wf_empty fun o ho => h.clean o (List.mem_of_mem_filter ho)) g.relations

theorem wf_build (hs : Clean s) : WF (build cm s) := by
  induction s with
  | new => exact wf_empty
  | add s obj ih => exact wf_add (ih hs.1) hs.2
  | relate s source target type evidence ih => exact wf_relate (ih hs) source target type evidence
  | merge s other ih ih' => exact wf_merge (ih hs.1) (ih' hs.2)
  | view s f ih => exact wf_view (ih hs)

theorem get_relateAll (g : Graph) (rs : List Relation) : (g.relateAll rs).get id = g.get id := by
  obtain ⟨hobjects, hindex⟩ := objects_relateAll g rs
  rw [Graph.get, Graph.get, hobjects, hindex]

theorem get_build (hs : Clean s) (hid : trimSpace id ≠ "") :
    (build cm s).get id = last id (added cm s) := by
  induction s with
  | new => rfl
  | add s obj ih =>
    rw [build, get_add (wf_build hs.1) hid, added, last_append, ih hs.1, last_cons]
    split_ifs <;> rfl
  | relate s source target type evidence ih =>
    obtain ⟨hobjects, hindex⟩ := objects_relate (build cm s) source target type evidence
    rw [build, Graph.get, hobjects, hindex, ← Graph.get, ih hs, added]
  | merge s other ih =>
    have hother : WF (build cm other) := wf_build hs.2
    rw [build, Graph.merge, get_relateAll, get_addAll (wf_build hs.1) hother.clean hid, ih hs.1,
      added, last_append]
  | view s f ih =>
    have hwf : WF (build cm s) := wf_build hs
    have hclean : ∀ o ∈ (build cm s).objects.filter (f.retains cm), '\x00' ∉ o.id.toList :=
      fun o ho => hwf.clean o (List.mem_of_mem_filter ho)
    rw [build, Graph.view, get_relateAll, get_addAll wf_empty hclean hid, added]
    exact Option.or_none

theorem last_eq_some {os : List Object} {o : Object} (hnodup : (os.map Object.id).Nodup)
    (ho : o ∈ os) : last o.id os = some o := by
  have hmem : o ∈ os.filter fun o' => o'.id = o.id :=
    List.mem_filter.mpr ⟨ho, decide_eq_true rfl⟩
  obtain ⟨o', ho'⟩ := Option.isSome_iff_exists.mp
    (List.getLast?_isSome.mpr (List.ne_nil_of_mem hmem))
  obtain ⟨hmem', hid⟩ := List.mem_filter.mp (List.mem_of_getLast? ho')
  rw [last, ho', List.inj_on_of_nodup_map hnodup hmem' ho (of_decide_eq_true hid)]

/-- A second merge of a graph finds all objects and all relations of it. -/
theorem merge_merge (h : WF g) (hother : WF other) :
    (g.merge other).merge other = g.merge other := by
  have hadded : WF (other.objects.foldl Graph.add g) := wf_addAll h hother.clean
  have hmerged : WF (g.merge other) := wf_merge h hother
  have hsame : (g.merge other).objects = (other.objects.foldl Graph.add g).objects :=
    (objects_relateAll _ _).1
  have hobjects : ∀ o ∈ other.objects, o ∈ (g.merge other).objects := by
    intro o ho
    have hget : (other.objects.foldl Graph.add g).get o.id = some o := by
      rw [get_addAll h hother.clean (hother.nonblank o ho), last_eq_some hother.nodup ho]
      rfl
    rw [hsame]
    exact (hadded.get_eq_some_iff.mp hget).1
  rw [Graph.merge, addAll_self hmerged hobjects]
  refine relateAll_self hmerged fun r hr hsource htarget hne => ?_
  rw [Present, hsame] at hsource htarget
  exact mem_edges_relateAll hadded hr hsource htarget hne

theorem relations_view (h : WF g) : r ∈ (g.view cm f).relations ↔
    r ∈ g.relations ∧ Present (g.view cm f) r.source ∧ Present (g.view cm f) r.target := by
  have hretained : WF ((g.objects.filter (f.retains cm)).foldl Graph.add {}) :=
    wf_addAll wf_empty fun o ho => h.clean o (List.mem_of_mem_filter ho)
  obtain ⟨hnone, hedges⟩ := relations_addAll {} (g.objects.filter (f.retains cm))
  have hview := relations_relateAll (r := r) hretained h.distinct h.irreflexive
    fun r _ => hedges ▸ List.not_mem_nil
  rw [hnone] at hview
  have hobjects := (objects_relateAll
    ((g.objects.filter (f.retains cm)).foldl Graph.add {}) g.relations).1
  rw [Graph.view, hview, or_iff_right List.not_mem_nil, Present, Present, Present, Present,
    hobjects]

theorem mem_relate (h : WF g) (hsource : Present g r.source) (htarget : Present g r.target)
    (hne : r.source ≠ r.target) (hclean : '\x00' ∉ r.source.toList) :
    ∃ r' ∈ (g.relate r.source r.target r.type r.evidence).relations, SameEdge r' r := by
  have hwf := wf_relate h r.source r.target r.type r.evidence
  obtain ⟨r', hr', hkey⟩ := hwf.edges.mp (mem_edges_relate h hsource htarget hne)
  obtain ⟨o, ho, hid⟩ := (hwf.ends r' hr').1
  exact ⟨r', hr', (key_inj (hid ▸ hwf.clean o ho) hclean).mp hkey⟩

/-- The invariant of the artifact graphs, over all ways in which one comes about. -/
theorem graphs_sound (cm : CaseMap) (s : Script) (hs : Clean s) : Sound cm s := by
  have hwf : WF (build cm s) := wf_build hs
  have hclean : ∀ {id}, Present (build cm s) id → '\x00' ∉ id.toList := by
    rintro _ ⟨o, ho, rfl⟩
    exact hwf.clean o ho
  constructor
  · exact hwf.nodup
  · exact hwf.nonblank
  · intro id
    split_ifs with hid
    · exact hwf.get_blank hid
    · exact get_build hs hid
  · exact hwf.ends
  · exact hwf.irreflexive
  · refine (List.pairwise_map.mp hwf.distinct).imp_of_mem fun hr hr' hkey hsame => hkey ?_
    exact (key_inj (hclean (hwf.ends _ hr).1) (hclean (hwf.ends _ hr').1)).mpr hsame
  · intro source target type evidence hsource htarget hne
    exact mem_relate (r := ⟨source, target, type, evidence⟩) hwf hsource htarget hne (hclean hsource)
  · exact fun other hother => merge_merge hwf (wf_build hother)
  · exact fun f r => relations_view hwf

def device : Object where
  id := "device:1"
  type := .device
  name := "gateway"
  source := "firmware-static"
  confidence := 70
  timestamp := 0

theorem graphs_sound_device : Sound asciiCase (.view (.merge .new (.add .new device)) {}) :=
  graphs_sound asciiCase _ ⟨trivial, trivial, by decide⟩

end RivicQ.Properties.Graphs
