import RivicQ.Discovery.Manifests
import Mathlib.Data.List.ReduceOption

namespace RivicQ.Properties.Projects

open RivicQ.Lib.Markup RivicQ.Discovery.Manifests

def head (s : String)
    (h : s.toList.all (fun c => c ≠ '<' && c ≠ '>') = true := by decide) : Head :=
  ⟨s.toList, fun hc => by simpa using List.all_eq_true.mp h '<' hc,
    fun hc => by simpa using List.all_eq_true.mp h '>' hc⟩

/-- A document as it is laid out. -/
structure Layout where
  lead : Text
  gaps : Nat → Text

def Layout.text (l : Layout) (is : List Item) : String := String.ofList (render l.lead l.gaps is)

theorem extractXML_text (l : Layout) {tag : String} {is : List Item} (htag : '>' ∉ tag.toList)
    (hslash : tag.toList.head? ≠ some '/') (his : ∀ i ∈ is, i.Apart tag.toList) :
    extractXML (l.text is) tag = (is.filterMap (Item.textOf tag.toList)).map String.ofList := by
  rw [extractXML, Layout.text, String.toList_ofList, between_render htag hslash l.lead l.gaps his]

section References

/-- What may stand in the quotes of an attribute. -/
abbrev Quoted := { s : String // '\"' ∉ s.toList ∧ '<' ∉ s.toList ∧ '>' ∉ s.toList }

/-- A reference as a project file writes it, with or without a closing tag. -/
structure Reference where
  name : Quoted
  version : Quoted
  closed : Bool

namespace Reference

def attributes (r : Reference) : List Char :=
  " Include=\"".toList ++ r.name.1.toList ++ "\" Version=\"".toList ++ r.version.1.toList ++ ['\"']

theorem plain_append {s t : List Char} (hs : '<' ∉ s ∧ '>' ∉ s) (ht : '<' ∉ t ∧ '>' ∉ t) :
    '<' ∉ s ++ t ∧ '>' ∉ s ++ t := by
  simp [hs.1, hs.2, ht.1, ht.2]

theorem plain (r : Reference) : '<' ∉ r.attributes ∧ '>' ∉ r.attributes := by
  have hname := r.name.2.2
  have hversion := r.version.2.2
  refine plain_append (plain_append (plain_append (plain_append ?_ hname) ?_) hversion) ?_ <;> decide

/-- The head of a reference's tag; without a closing tag a slash ends it. -/
def tag (r : Reference) : Head :=
  ⟨"PackageReference".toList ++ (r.attributes ++ if r.closed then [] else " /".toList),
    plain_append (by decide) (plain_append r.plain (by split_ifs <;> decide))⟩

def items (r : Reference) : List Item :=
  if r.closed then [.mark r.tag, .mark (head "/PackageReference")] else [.mark r.tag]

def component (r : Reference) : SBOMComponent := nugetComponent r.name.1 r.version.1

theorem attributes_ne_nil (r : Reference) : r.attributes ≠ [] :=
  List.append_ne_nil_of_right_ne_nil _ (List.cons_ne_nil _ _)

theorem append_ne_self {s t : List Char} (ht : t ≠ []) : s ++ t ≠ s := by simpa using ht

theorem tag_ne (r : Reference) : r.tag.1 ≠ "PackageReference".toList :=
  append_ne_self (List.append_ne_nil_of_left_ne_nil r.attributes_ne_nil _)

end Reference

def csproj (refs : List Reference) : List Item :=
  [.mark (head "Project Sdk=\"Microsoft.NET.Sdk\""), .mark (head "ItemGroup")] ++
    refs.flatMap Reference.items ++ [.mark (head "/ItemGroup"), .mark (head "/Project")]

/-- Every tag of a project file is a mark, and none is bare. -/
theorem mark_of_mem {refs : List Reference} {i : Item} (hi : i ∈ csproj refs) :
    ∃ h : Head, i = .mark h ∧ h.1 ≠ "PackageReference".toList := by
  simp only [csproj, List.mem_append, List.mem_cons, List.not_mem_nil, or_false,
    List.mem_flatMap] at hi
  obtain ((rfl | rfl) | ⟨r, -, hr⟩) | rfl | rfl := hi
  · exact ⟨_, rfl, by decide⟩
  · exact ⟨_, rfl, by decide⟩
  · rw [Reference.items] at hr
    split_ifs at hr
    · simp only [List.mem_cons, List.not_mem_nil, or_false] at hr
      obtain rfl | rfl := hr
      · exact ⟨_, rfl, r.tag_ne⟩
      · exact ⟨_, rfl, by decide⟩
    · obtain rfl := List.mem_singleton.mp hr
      exact ⟨_, rfl, r.tag_ne⟩
  · exact ⟨_, rfl, by decide⟩
  · exact ⟨_, rfl, by decide⟩

/-- The references of a project file have attributes, so none is found. -/
theorem parseCSProj_csproj (l : Layout) (refs : List Reference) :
    parseCSProj (l.text (csproj refs)) = [] := by
  have hnone : (csproj refs).filterMap (Item.textOf "PackageReference".toList) = [] := by
    refine List.filterMap_eq_nil_iff.mpr fun i hi => ?_
    obtain ⟨h, rfl, -⟩ := mark_of_mem hi
    rfl
  have hfound : extractXML (l.text (csproj refs)) "PackageReference" = [] := by
    rw [extractXML_text l (by decide) (by decide) fun i hi => ?_, hnone, List.map_nil]
    obtain ⟨h, rfl, hne⟩ := mark_of_mem hi
    exact hne
  rw [parseCSProj, hfound, List.filterMap_nil]

/-- A project file is read in full if it has no references, and only then. -/
theorem references_iff (l : Layout) (refs : List Reference) :
    parseCSProj (l.text (csproj refs)) = refs.map Reference.component ↔ refs = [] := by
  rw [parseCSProj_csproj, eq_comm, List.map_eq_nil_iff]

def json : Reference := ⟨⟨"Newtonsoft.Json", by decide⟩, ⟨"13.0.3", by decide⟩, false⟩

def lines : Layout := ⟨⟨[], by decide⟩, fun _ => ⟨['\n'], by decide⟩⟩

/-- A reference that is missed. -/
theorem reference_is_missed :
    parseCSProj (lines.text (csproj [json])) = [] ∧
      [json].map Reference.component = [nugetComponent "Newtonsoft.Json" "13.0.3"] :=
  ⟨parseCSProj_csproj lines [json], rfl⟩

end References

section Positions

variable {α : Type} {d : α}

/-- The values at hand stand in the places of those they are the values of. -/
def InPlace (d : α) (k : Nat) (values : List α) (vs : List (Option α)) : Prop :=
  ∀ i v, vs[i]? = some v → values.getD (i + k) d = v.getD d

theorem inPlace_nil {k : Nat} {values : List α} : InPlace d k values [] := by
  intro i v hv
  cases hv

theorem inPlace_cons {k : Nat} {values : List α} {v : Option α} {vs : List (Option α)} :
    InPlace d k values (v :: vs) ↔ values.getD k d = v.getD d ∧ InPlace d (k + 1) values vs := by
  constructor
  · intro h
    refine ⟨?_, fun i w hw => ?_⟩
    · have hfirst := h 0 v List.getElem?_cons_zero
      rwa [Nat.zero_add] at hfirst
    · have hrest := h (i + 1) w (List.getElem?_cons_succ.trans hw)
      rwa [Nat.add_right_comm] at hrest
  · rintro ⟨hfirst, hrest⟩ i w hw
    cases i with
    | zero =>
      obtain rfl := Option.some.inj (List.getElem?_cons_zero.symm.trans hw)
      rwa [Nat.zero_add]
    | succ i =>
      have hplace := hrest i w (List.getElem?_cons_succ.symm.trans hw)
      rwa [Nat.add_right_comm]

theorem inPlace_cons_value {k : Nat} {x : α} {values : List α} {vs : List (Option α)} :
    InPlace d (k + 1) (x :: values) vs ↔ InPlace d k values vs := Iff.rfl

theorem getD_reduceOption {vs : List (Option α)} (h : ∀ v ∈ vs, v.getD d = d) (i : Nat) :
    vs.reduceOption.getD i d = d := by
  rw [List.getD_eq_getElem?_getD]
  cases hx : vs.reduceOption[i]? with
  | none => rfl
  | some x => exact h (some x) (List.reduceOption_mem_iff.mp (List.mem_of_getElem? hx))

/-- What is missing moves what stands behind it forward; this shows unless all of that is
the default. -/
theorem shifted_iff {k : Nat} (vs : List (Option α)) :
    InPlace d (k + 1) vs.reduceOption vs ↔ ∀ v ∈ vs, v.getD d = d := by
  constructor
  · induction vs generalizing k with
    | nil => exact fun _ => List.forall_mem_nil _
    | cons v vs ih =>
      cases v with
      | none =>
        rw [List.reduceOption_cons_of_none, inPlace_cons]
        rintro ⟨-, hrest⟩
        exact List.forall_mem_cons.mpr ⟨rfl, ih hrest⟩
      | some x =>
        rw [List.reduceOption_cons_of_some, inPlace_cons, inPlace_cons_value]
        rintro ⟨hfirst, hrest⟩
        have hall := ih hrest
        refine List.forall_mem_cons.mpr ⟨hfirst.symm.trans ?_, hall⟩
        exact getD_reduceOption hall k
  · intro h i v hv
    rw [getD_reduceOption h, h v (List.mem_of_getElem? hv)]

/-- Nothing but defaults comes behind what is missing. -/
def Aligned (d : α) (vs : List (Option α)) : Prop := vs.Pairwise fun v w => v = none → w.getD d = d

theorem aligned_none {vs : List (Option α)} : Aligned d (none :: vs) ↔ ∀ v ∈ vs, v.getD d = d := by
  rw [Aligned, List.pairwise_cons]
  refine ⟨fun h v hv => h.1 v hv rfl, fun h => ⟨fun v hv _ => h v hv, ?_⟩⟩
  exact List.pairwise_of_forall_mem_list fun v _ w hw _ => h w hw

theorem aligned_some {x : α} {vs : List (Option α)} : Aligned d (some x :: vs) ↔ Aligned d vs := by
  rw [Aligned, List.pairwise_cons]
  exact and_iff_right fun v _ h => by cases h

theorem inPlace_iff (vs : List (Option α)) : InPlace d 0 vs.reduceOption vs ↔ Aligned d vs := by
  induction vs with
  | nil => exact iff_of_true inPlace_nil List.Pairwise.nil
  | cons v vs ih =>
    rw [inPlace_cons]
    cases v with
    | none =>
      rw [List.reduceOption_cons_of_none, shifted_iff, aligned_none, and_iff_right_iff_imp]
      exact fun h => getD_reduceOption h 0
    | some x =>
      rw [List.reduceOption_cons_of_some, inPlace_cons_value, ih, aligned_some]
      exact and_iff_right rfl

/-- The values of all but the first are in their places. -/
theorem inPlace_tail_iff (v : Option α) (vs : List (Option α)) :
    InPlace d 1 (v :: vs).reduceOption vs ↔ Aligned d (v :: vs) := by
  cases v with
  | none => rw [List.reduceOption_cons_of_none, shifted_iff, aligned_none]
  | some x => rw [List.reduceOption_cons_of_some, inPlace_cons_value, inPlace_iff, aligned_some]

end Positions

section Poms

/-- Items that have nothing to do with coordinates. -/
def Foreign (i : Item) : Prop :=
  ∀ tag ∈ ["artifactId", "version", "groupId"], i.Apart tag.toList ∧ i.textOf tag.toList = none

abbrev Others := { is : List Item // ∀ i ∈ is, Foreign i }

/-- A dependency, or a parent or plugin, as a project names it. -/
structure Dependency where
  groupId : Text
  artifactId : Text
  version : Option Text
  others : Others := ⟨[], List.forall_mem_nil _⟩

structure Project where
  parent : Option Dependency
  groupId : Option Text
  artifactId : Text
  version : Option Text
  others : Others := ⟨[], List.forall_mem_nil _⟩
  dependencies : List Dependency
  plugins : List Dependency

/-- Items in an element of their own. -/
def wrap (name : Head) (is : List Item) : List Item := .mark name :: is ++ [.mark name.close]

def coordinates (groupId : Option Text) (artifactId : Text) (version : Option Text) : List Item :=
  (groupId.map (Item.leaf (head "groupId"))).toList ++
    .leaf (head "artifactId") artifactId :: (version.map (Item.leaf (head "version"))).toList

def Dependency.items (d : Dependency) : List Item :=
  coordinates (some d.groupId) d.artifactId d.version ++ d.others.1

def Project.items (p : Project) : List Item :=
  .mark (head "?xml version=\"1.0\" encoding=\"UTF-8\"?") :: wrap (head "project")
    (.leaf (head "modelVersion") ⟨"4.0.0".toList, by decide⟩ ::
      p.parent.toList.flatMap (fun d => wrap (head "parent") d.items) ++
      coordinates p.groupId p.artifactId p.version ++ p.others.1 ++
      wrap (head "dependencies")
        (p.dependencies.flatMap fun d => wrap (head "dependency") d.items) ++
      wrap (head "build") (wrap (head "plugins")
        (p.plugins.flatMap fun d => wrap (head "plugin") d.items)))

def string (t : Text) : String := String.ofList t.1

def Dependency.component (d : Dependency) : SBOMComponent :=
  mavenComponent (string d.groupId) (string d.artifactId) ((d.version.map string).getD "")

/-- The texts of the elements of a name. -/
def texts (tag : String) (is : List Item) : List String :=
  (is.filterMap (Item.textOf tag.toList)).map String.ofList

section Texts

variable {tag : String} {is is' : List Item} {name : Head}

theorem texts_append : texts tag (is ++ is') = texts tag is ++ texts tag is' := by
  rw [texts, List.filterMap_append, List.map_append, texts, texts]

theorem texts_mark : texts tag (.mark name :: is) = texts tag is := rfl

theorem texts_wrap : texts tag (wrap name is) = texts tag is := by
  rw [wrap, List.cons_append, texts_mark, texts_append]
  exact List.append_nil _

theorem texts_leaf {s : String} {h} {text : Text} : texts tag (.leaf (head s h) text :: is) =
    (if s = tag then [string text] else []) ++ texts tag is := by
  by_cases heq : s = tag
  · subst heq
    simp [texts, Item.textOf, head, string]
  · have hne : s.toList ≠ tag.toList := mt String.toList_inj.mp heq
    simp [texts, Item.textOf, head, heq, hne]

theorem texts_flatMap {α : Type} (ds : List α) (f : α → List Item) :
    texts tag (ds.flatMap f) = ds.flatMap fun d => texts tag (f d) := by
  induction ds with
  | nil => rfl
  | cons d ds ih => rw [List.flatMap_cons, List.flatMap_cons, texts_append, ih]

theorem texts_others (o : Others) (htag : tag ∈ ["artifactId", "version", "groupId"]) :
    texts tag o.1 = [] := by
  rw [texts, List.filterMap_eq_nil_iff.mpr fun i hi => (o.2 i hi tag htag).2, List.map_nil]

/-- The texts of a project are those of its parts, in their order. -/
theorem texts_project (p : Project) (htag : tag ∈ ["artifactId", "version", "groupId"]) :
    texts tag p.items =
      p.parent.toList.flatMap (fun d => texts tag d.items) ++
        texts tag (coordinates p.groupId p.artifactId p.version) ++
        p.dependencies.flatMap (fun d => texts tag d.items) ++
        p.plugins.flatMap (fun d => texts tag d.items) := by
  have hmodel : "modelVersion" ≠ tag := by
    rintro rfl
    revert htag
    decide
  rw [Project.items, texts_mark, texts_wrap]
  simp only [List.cons_append, List.append_assoc, texts_leaf, if_neg hmodel, List.nil_append,
    texts_append, texts_wrap, texts_flatMap, texts_others p.others htag]

theorem texts_artifactId {g v : Option Text} {a : Text} :
    texts "artifactId" (coordinates g a v) = [string a] := by
  cases g <;> cases v <;> simp [coordinates, texts_leaf] <;> rfl

theorem texts_groupId {g v : Option Text} {a : Text} :
    texts "groupId" (coordinates g a v) = (g.map string).toList := by
  cases g <;> cases v <;> simp [coordinates, texts_leaf] <;> rfl

theorem texts_version {g v : Option Text} {a : Text} :
    texts "version" (coordinates g a v) = (v.map string).toList := by
  cases g <;> cases v <;> simp [coordinates, texts_leaf] <;> rfl

theorem texts_dependency (d : Dependency) (htag : tag ∈ ["artifactId", "version", "groupId"]) :
    texts tag d.items = texts tag (coordinates (some d.groupId) d.artifactId d.version) := by
  rw [Dependency.items, texts_append, texts_others d.others htag, List.append_nil]

end Texts

section Reading

variable {tag : String} {is is' : List Item} {name : Head} {p : Project}

/-- Items of which none is taken for the tag of an element. -/
def Clean (tag : String) (is : List Item) : Prop := ∀ i ∈ is, i.Apart tag.toList

theorem clean_append : Clean tag (is ++ is') ↔ Clean tag is ∧ Clean tag is' :=
  List.forall_mem_append

theorem clean_leaf {text : Text} : Clean tag (.leaf name text :: is) ↔ Clean tag is :=
  List.forall_mem_cons.trans (and_iff_right trivial)

theorem clean_wrap {s : String} {h} (hname : s ≠ tag) (hclose : "/" ++ s ≠ tag) :
    Clean tag (wrap (head s h) is) ↔ Clean tag is := by
  have hopen : (Item.mark (head s h)).Apart tag.toList := mt String.toList_inj.mp hname
  have hend : (Item.mark (head s h).close).Apart tag.toList := by
    intro heq
    apply hclose
    rw [← String.toList_inj, String.toList_append]
    exact heq
  rw [wrap, clean_append]
  refine (and_iff_left (List.forall_mem_singleton.mpr hend)).trans ?_
  exact List.forall_mem_cons.trans (and_iff_right hopen)

theorem clean_flatMap {α : Type} {ds : List α} {f : α → List Item} (h : ∀ d, Clean tag (f d)) :
    Clean tag (ds.flatMap f) := by
  intro i hi
  obtain ⟨d, -, hmem⟩ := List.mem_flatMap.mp hi
  exact h d i hmem

theorem clean_coordinates (g v : Option Text) (a : Text) : Clean tag (coordinates g a v) := by
  cases g <;> cases v <;> simp [coordinates, clean_leaf] <;> exact List.forall_mem_nil _

theorem clean_others (o : Others) (htag : tag ∈ ["artifactId", "version", "groupId"]) :
    Clean tag o.1 := fun i hi => (o.2 i hi tag htag).1

theorem clean_dependency (d : Dependency) (htag : tag ∈ ["artifactId", "version", "groupId"]) :
    Clean tag d.items := clean_append.mpr ⟨clean_coordinates _ _ _, clean_others d.others htag⟩

/-- None of the tags that a project is made of is taken for one of its coordinates. -/
theorem clean_project (p : Project) (htag : tag ∈ ["artifactId", "version", "groupId"]) :
    Clean tag p.items := by
  have hname : ∀ s ∈ ["?xml version=\"1.0\" encoding=\"UTF-8\"?", "project", "parent", "dependencies",
      "dependency", "build", "plugins", "plugin"], s ≠ tag ∧ "/" ++ s ≠ tag := by
    revert tag
    decide
  simp only [List.forall_mem_cons, List.not_mem_nil, false_imp_iff, implies_true, and_true] at hname
  obtain ⟨hxml, hproject, hparent, hdependencies, hdependency, hbuild, hplugins, hplugin⟩ := hname
  have hparts : ∀ (ds : List Dependency) (s : String) (h), s ≠ tag ∧ "/" ++ s ≠ tag →
      Clean tag (ds.flatMap fun d => wrap (head s h) d.items) := fun ds s h hs =>
    clean_flatMap fun d => (clean_wrap hs.1 hs.2).mpr (clean_dependency d htag)
  have hbody : Clean tag (p.parent.toList.flatMap (fun d => wrap (head "parent") d.items) ++
      coordinates p.groupId p.artifactId p.version ++ p.others.1) :=
    clean_append.mpr ⟨clean_append.mpr ⟨hparts _ _ _ hparent, clean_coordinates _ _ _⟩,
      clean_others p.others htag⟩
  have hlists := clean_append.mpr ⟨clean_append.mpr ⟨hbody,
    (clean_wrap (h := by decide) hdependencies.1 hdependencies.2).mpr
      (hparts p.dependencies _ (by decide) hdependency)⟩,
    (clean_wrap (h := by decide) hbuild.1 hbuild.2).mpr
      ((clean_wrap (h := by decide) hplugins.1 hplugins.2).mpr
        (hparts p.plugins _ (by decide) hplugin))⟩
  refine List.forall_mem_cons.mpr ⟨mt String.toList_inj.mp hxml.1, ?_⟩
  exact (clean_wrap hproject.1 hproject.2).mpr (clean_leaf.mpr hlists)

theorem extractXML_project (l : Layout) (p : Project)
    (htag : tag ∈ ["artifactId", "version", "groupId"]) :
    extractXML (l.text p.items) tag =
      p.parent.toList.flatMap (fun d => texts tag d.items) ++
        texts tag (coordinates p.groupId p.artifactId p.version) ++
        p.dependencies.flatMap (fun d => texts tag d.items) ++
        p.plugins.flatMap (fun d => texts tag d.items) := by
  have hplain : '>' ∉ tag.toList ∧ tag.toList.head? ≠ some '/' := by
    revert tag
    decide
  rw [extractXML_text l hplain.1 hplain.2 (clean_project p htag)]
  exact texts_project p htag

end Reading

section Association

variable {p : Project} {ds : List Dependency} {groups versions : List String}

theorem mavenComponent_inj {g g' n v v' : String} :
    mavenComponent g n v = mavenComponent g' n v' ↔ g = g' ∧ v = v' := by
  refine ⟨fun h => ?_, fun ⟨hg, hv⟩ => by rw [hg, hv]⟩
  have hname : g ++ ":" ++ n = g' ++ ":" ++ n := congrArg SBOMComponent.name h
  have hversion : v = v' := congrArg SBOMComponent.version h
  refine ⟨String.toList_inj.mp ?_, hversion⟩
  have hlists := congrArg String.toList hname
  simp only [String.toList_append] at hlists
  exact List.append_cancel_right (List.append_cancel_right hlists)

/-- The components are those of the dependencies if the groups and the versions stand in the
places of their names. -/
theorem places_iff (k : Nat) :
    (((ds.map fun d => string d.artifactId).zipIdx k).map fun e =>
        mavenComponent (groups.getD e.2 "") e.1 (versions.getD e.2 "")) =
      ds.map Dependency.component ↔
    InPlace "" k groups (ds.map fun d => some (string d.groupId)) ∧
      InPlace "" k versions (ds.map fun d => d.version.map string) := by
  induction ds generalizing k with
  | nil => exact iff_of_true rfl ⟨inPlace_nil, inPlace_nil⟩
  | cons d ds ih =>
    simp only [List.map_cons, List.zipIdx_cons, List.cons.injEq, ih, inPlace_cons,
      Dependency.component, mavenComponent_inj, Option.getD_some]
    exact and_and_and_comm

theorem reduceOption_map (f : Dependency → Option String) :
    (ds.map f).reduceOption = ds.flatMap fun d => (f d).toList := by
  rw [List.reduceOption, List.filterMap_map, List.filterMap_eq_flatMap_toList]
  rfl

theorem reduceOption_cons (v : Option String) (vs : List (Option String)) :
    (v :: vs).reduceOption = v.toList ++ vs.reduceOption := by
  cases v <;> rfl

variable (l : Layout)

/-- The first name is that of the project if it has no parent; more names than dependencies
come behind it if it has plugins. -/
theorem artifactIds_eq : extractXML (l.text p.items) "artifactId" =
    p.parent.toList.map (fun d => string d.artifactId) ++ [string p.artifactId] ++
      p.dependencies.map (fun d => string d.artifactId) ++
      p.plugins.map fun d => string d.artifactId := by
  have htag : "artifactId" ∈ ["artifactId", "version", "groupId"] := by decide
  rw [extractXML_project l p htag]
  simp only [texts_dependency _ htag, texts_artifactId, ← List.map_eq_flatMap]

theorem length_parsePomXML : (parsePomXML (l.text p.items)).length =
    p.parent.toList.length + p.dependencies.length + p.plugins.length := by
  rw [parsePomXML, artifactIds_eq]
  simp
  omega

theorem groupIds_eq (hparent : p.parent = none) (hplugins : p.plugins = []) :
    extractXML (l.text p.items) "groupId" =
      (p.groupId.map string :: p.dependencies.map fun d => some (string d.groupId)).reduceOption := by
  have htag : "groupId" ∈ ["artifactId", "version", "groupId"] := by decide
  rw [extractXML_project l p htag, hparent, hplugins, reduceOption_cons, reduceOption_map]
  simp only [texts_dependency _ htag, texts_groupId, Option.toList_none, List.flatMap_nil,
    List.nil_append, List.append_nil, Option.map_some]

theorem versions_eq (hparent : p.parent = none) (hplugins : p.plugins = []) :
    extractXML (l.text p.items) "version" =
      (p.version.map string :: p.dependencies.map fun d => d.version.map string).reduceOption := by
  have htag : "version" ∈ ["artifactId", "version", "groupId"] := by decide
  rw [extractXML_project l p htag, hparent, hplugins, reduceOption_cons, reduceOption_map]
  simp only [texts_dependency _ htag, texts_version, Option.toList_none, List.flatMap_nil,
    List.nil_append, List.append_nil]

/-- The association goes by position: it is right for a project without a parent and without
plugins in which no group and no version is left out before one that is given. -/
theorem association_iff : parsePomXML (l.text p.items) = p.dependencies.map Dependency.component ↔
    p.parent = none ∧ p.plugins = [] ∧
      Aligned "" (p.groupId.map string :: p.dependencies.map fun d => some (string d.groupId)) ∧
      Aligned "" (p.version.map string :: p.dependencies.map fun d => d.version.map string) := by
  by_cases halone : p.parent = none ∧ p.plugins = []
  · obtain ⟨hparent, hplugins⟩ := halone
    have hnames : extractXML (l.text p.items) "artifactId" =
        string p.artifactId :: p.dependencies.map fun d => string d.artifactId := by
      rw [artifactIds_eq, hparent, hplugins]
      exact List.append_nil _
    rw [parsePomXML, hnames, groupIds_eq l hparent hplugins, versions_eq l hparent hplugins,
      List.zipIdx_cons, List.tail_cons, places_iff, inPlace_tail_iff, inPlace_tail_iff,
      and_iff_right hparent, and_iff_right hplugins]
  · refine iff_of_false (fun h => halone ?_) fun h => halone ⟨h.1, h.2.1⟩
    have hlength := congrArg List.length h
    rw [length_parsePomXML, List.length_map] at hlength
    have hparent : p.parent.toList.length = 0 := by omega
    have hplugins : p.plugins.length = 0 := by omega
    refine ⟨?_, List.eq_nil_of_length_eq_zero hplugins⟩
    cases hp : p.parent with
    | none => rfl
    | some d => rw [hp] at hparent; cases hparent

/-- A text without brackets. -/
def plainText (s : String) (h : s.toList.all (· ≠ '<') = true := by decide) : Text :=
  ⟨s.toList, fun hc => by simpa using List.all_eq_true.mp h '<' hc⟩

/-- A project whose first dependency has its version managed elsewhere. -/
def managed : Project where
  parent := none
  groupId := some (plainText "com.example")
  artifactId := plainText "app"
  version := some (plainText "1.0.0")
  dependencies :=
    [{ groupId := plainText "org.springframework", artifactId := plainText "spring-core"
       version := none },
      { groupId := plainText "org.postgresql", artifactId := plainText "postgresql"
        version := some (plainText "42.7.3") }]
  plugins := []

/-- The version of the second dependency is given to the first. -/
theorem versions_shift :
    parsePomXML (lines.text managed.items) =
      [mavenComponent "org.springframework" "spring-core" "42.7.3",
        mavenComponent "org.postgresql" "postgresql" ""] ∧
    managed.dependencies.map Dependency.component =
      [mavenComponent "org.springframework" "spring-core" "",
        mavenComponent "org.postgresql" "postgresql" "42.7.3"] := by
  rw [parsePomXML, artifactIds_eq, groupIds_eq lines rfl rfl, versions_eq lines rfl rfl]
  decide

end Association

end Poms

end RivicQ.Properties.Projects
