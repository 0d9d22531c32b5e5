import RivicQ.Lib.Bytes
import RivicQ.Lib.Casing
import RivicQ.Lib.Firsts
import RivicQ.Properties.Lifecycle

namespace RivicQ.Properties.Plugins

open RivicQ.Lib.Bytes RivicQ.Lib.GoStrings RivicQ.Lib.Tables RivicQ.Lib.Casing RivicQ.Lib.Firsts
open RivicQ.Quantum.Providers RivicQ.Quantum.Plugins RivicQ.Properties.Lifecycle

section Spec

variable {F K : Type}

/-- What manifests register, one after the other: the factories of the entry points that are known
by then. -/
def registrations (factories : Table F) : List PluginManifest → List (String × F)
  | [] => []
  | m :: ms =>
    (factories.lookup m.entryPoint).elim (registrations factories ms) fun f =>
      (m.name, f) :: registrations (factories.insert m.name f) ms

/-- The last factory under a name. -/
def lastOf (es : List (String × F)) (n : String) : Option F :=
  (es.reverse.find? fun e => e.1 = n).map Prod.snd

/-- A registry has what another one has, and what is registered in turn. -/
structure Registered (r : Registry F) (es : List (String × F)) (r' : Registry F) : Prop where
  factories : ∀ n, r'.factories.lookup n = (lastOf es n).or (r.factories.lookup n)
  order : r'.order = r.order ++ (firsts id (es.map Prod.fst)).filter fun n =>
    (r.factories.lookup n).isNone

/-- The same factories, in the same order. -/
def Same (r r' : Registry F) : Prop :=
  (∀ n, r'.factories.lookup n = r.factories.lookup n) ∧ r'.order = r.order

/-- A failed load leaves the registry as it was, and one that succeeds registers exactly the
validated manifests whose entry points are known. -/
def Atomic (cm : CaseMap) (env : Environment K) (l : ManifestLoader K) (dir : String)
    (reg : Option (Registry F)) : Prop :=
  (∀ err, (load cm env l dir reg).1 = .error err →
    Option.Rel Same reg (load cm env l dir reg).2) ∧
  ∀ ms, (load cm env l dir reg).1 = .ok ms → (∀ m ∈ ms, validate env l m = none) ∧
    Option.Rel (fun r r' => Registered r (registrations r.factories ms) r') reg
      (load cm env l dir reg).2

/-- The manifests of a directory, each loaded or not. -/
def outcomes (cm : CaseMap) (env : Environment K) (l : ManifestLoader K) (dir : String)
    (entries : List DirEntry) : List (Except String PluginManifest) :=
  (entries.filter (isManifest cm)).map fun e =>
    loadFile env l (RivicQ.Lib.FilePaths.join dir e.name)

/-- The results before the first error. -/
def untilError {ε α : Type} : List (Except ε α) → List α
  | .ok a :: rest => a :: untilError rest
  | _ => []

/-- Where a manifest cannot be loaded, those before it register what is registered already. -/
def Spared (cm : CaseMap) (env : Environment K) (l : ManifestLoader K) (dir : String)
    (reg : Option (Registry F)) : Prop :=
  ∀ entries, env.readDir dir = .ok entries →
    (∃ err, .error err ∈ outcomes cm env l dir entries) → ∀ r, reg = some r →
      ∀ n f, lastOf (registrations r.factories (untilError (outcomes cm env l dir entries))) n =
        some f → r.factories.lookup n = some f

end Spec

variable {F K : Type} {cm : CaseMap} {env : Environment K} {l : ManifestLoader K} {dir : String}
  {reg : Option (Registry F)} {r r' : Registry F} {m : PluginManifest} {ms : List PluginManifest}
  {entries : List DirEntry} {outs : List (Except String PluginManifest)} {es : List (String × F)}
  {name n err : String} {f : F}

section Register

theorem lastOf_cons : lastOf ((name, f) :: es) n =
    (lastOf es n).or (if n = name then some f else none) := by
  rw [lastOf, lastOf, List.reverse_cons, List.find?_append, Option.map_or, List.find?_singleton]
  simp only [decide_eq_true_eq, eq_comm (a := n)]
  split_ifs <;> rfl

theorem Registered.congr {r₁ r₂ : Registry F} (hfactories : r₁.factories = r₂.factories)
    (horder : r₁.order = r₂.order) (h : Registered r₁ es r') : Registered r₂ es r' :=
  ⟨fun n => hfactories ▸ h.factories n, hfactories ▸ horder ▸ h.order⟩

/-- What is registered first, and then the rest. -/
theorem registered_cons (hname : name ≠ "") (h : Registered (r.register name f) es r') :
    Registered r ((name, f) :: es) r' := by
  have hlookup : ∀ n, (r.register name f).factories.lookup n =
      if n = name then some f else r.factories.lookup n := by
    intro n
    rw [Registry.register, if_neg hname, factories_emit, lookup_insert_if]
  have horder : (r.register name f).order =
      if (r.factories.lookup name).isSome then r.order else r.order ++ [name] := by
    rw [Registry.register, if_neg hname, order_emit]
  constructor
  · intro n
    rw [h.factories, hlookup, lastOf_cons, Option.or_assoc]
    split_ifs <;> rfl
  · have hfirsts : firsts id (((name, f) :: es).map Prod.fst) =
        name :: (firsts id (es.map Prod.fst)).filter fun n => n ≠ name := by
      rw [List.map_cons, firsts, firstsFrom, if_neg List.not_mem_nil]
      exact congrArg (name :: ·) (firstsFrom_insert fun x => List.mem_cons)
    have hrest : (firsts id (es.map Prod.fst)).filter
          (fun n => ((r.register name f).factories.lookup n).isNone) =
        ((firsts id (es.map Prod.fst)).filter fun n => n ≠ name).filter
          fun n => (r.factories.lookup n).isNone := by
      rw [List.filter_filter]
      refine List.filter_congr fun n _ => ?_
      rw [hlookup]
      split_ifs with hn
      · rw [hn]
        simp
      · simp [hn]
    rw [h.order, hrest, hfirsts, horder]
    cases hold : r.factories.lookup name with
    | none =>
      rw [List.filter_cons_of_pos (by rw [hold]; rfl)]
      simp
    | some g =>
      rw [List.filter_cons_of_neg (by rw [hold]; exact Bool.false_ne_true)]
      rfl

/-- The manifests that are loaded register what is known at their turns. -/
theorem registered_attach (h : ∀ m ∈ ms, m.name ≠ "") :
    Registered r (registrations r.factories ms) (ms.foldl (fun r m => attach m r) r) := by
  induction ms generalizing r with
  | nil => exact ⟨fun n => (Option.none_or).symm, (List.append_nil _).symm⟩
  | cons m ms ih =>
    obtain ⟨hname, hrest⟩ := List.forall_mem_cons.mp h
    have hspec := ih hrest (r := attach m r)
    rw [List.foldl_cons, registrations]
    cases hentry : r.factories.lookup m.entryPoint with
    | none =>
      have hattach : attach m r = r.emit .pluginLoaded m.name m.version := by
        rw [attach, hentry]
        rfl
      rw [hattach] at hspec ⊢
      rw [factories_emit] at hspec
      exact hspec.congr factories_emit order_emit
    | some f =>
      have hattach : attach m r = (r.register m.name f).emit .pluginLoaded m.name m.version := by
        rw [attach, hentry]
        rfl
      have hfactories : (attach m r).factories = r.factories.insert m.name f := by
        rw [hattach, factories_emit, Registry.register, if_neg hname, factories_emit]
      rw [hfactories] at hspec
      rw [hattach] at hspec ⊢
      exact registered_cons hname (hspec.congr factories_emit order_emit)

theorem isSome_lastOf (h : n ∈ es.map Prod.fst) : ∃ f, lastOf es n = some f := by
  obtain ⟨e, he, rfl⟩ := List.mem_map.mp h
  refine Option.isSome_iff_exists.mp ?_
  rw [lastOf, Option.isSome_map, List.find?_isSome]
  exact ⟨e, List.mem_reverse.mpr he, decide_eq_true rfl⟩

/-- Nothing has changed exactly if each name has got the factory it had. -/
theorem same_registry_iff (h : Registered r es r') :
    Same r r' ↔ ∀ n f, lastOf es n = some f → r.factories.lookup n = some f := by
  constructor
  · rintro ⟨hlookup, -⟩ n f hlast
    rw [← hlookup, h.factories, hlast]
    rfl
  · intro hold
    constructor
    · intro n
      rw [h.factories]
      cases hlast : lastOf es n with
      | none => exact Option.none_or
      | some f => exact (hold n f hlast).symm
    · have hnone : (firsts id (es.map Prod.fst)).filter
          (fun n => (r.factories.lookup n).isNone) = [] := by
        refine List.filter_eq_nil_iff.mpr fun n hn => ?_
        obtain ⟨f, hf⟩ := isSome_lastOf (mem_firsts.mp hn).mem
        rw [hold n f hf]
        exact Bool.false_ne_true
      rw [h.order, hnone, List.append_nil]

end Register

section Load

theorem validate_of_loadFile {path : String} (h : loadFile env l path = .ok m) :
    validate env l m = none := by
  unfold loadFile at h
  split at h
  · cases h
  · split at h
    · cases h
    · split at h
      · cases h
      · cases h
        assumption

theorem name_of_validate (h : validate env l m = none) : m.name ≠ "" := by
  intro hname
  rw [validate, hname] at h
  split_ifs at h with _ hempty
  · exact hempty (.inr (.inl rfl))
  · exact hempty (.inr (.inl rfl))

theorem mem_of_untilError (h : m ∈ untilError outs) : .ok m ∈ outs := by
  fun_induction untilError outs with
  | case1 m' rest ih =>
    obtain rfl | h := List.mem_cons.mp h
    · exact List.mem_cons_self
    · exact List.mem_cons_of_mem _ (ih h)
  | case2 => exact absurd h List.not_mem_nil

theorem validate_of_mem (h : m ∈ untilError (outcomes cm env l dir entries)) :
    validate env l m = none := by
  obtain ⟨e, -, he⟩ := List.mem_map.mp (mem_of_untilError h)
  exact validate_of_loadFile he

/-- The loop returns the first error, or the manifests, and has attached those before it. -/
theorem loadEntries_spec (cm : CaseMap) (env : Environment K) (l : ManifestLoader K)
    (dir : String) (reg : Option (Registry F)) (loaded : List PluginManifest)
    (entries : List DirEntry) :
    (loadEntries cm env l dir reg loaded entries).2 = reg.map (fun r =>
      (untilError (outcomes cm env l dir entries)).foldl (fun r m => attach m r) r) ∧
    ((∃ err, (loadEntries cm env l dir reg loaded entries).1 = .error err) ↔
      ∃ err, .error err ∈ outcomes cm env l dir entries) ∧
    ∀ ms, (loadEntries cm env l dir reg loaded entries).1 = .ok ms →
      ms = loaded ++ untilError (outcomes cm env l dir entries) := by
  induction entries generalizing reg loaded with
  | nil =>
    refine ⟨Option.map_id.symm ▸ rfl, iff_of_false nofun nofun, fun ms h => ?_⟩
    exact (Except.ok.inj h).symm.trans (List.append_nil loaded).symm
  | cons e entries ih =>
    by_cases he : isManifest cm e = true
    · have houtcomes : outcomes cm env l dir (e :: entries) =
          loadFile env l (RivicQ.Lib.FilePaths.join dir e.name) ::
            outcomes cm env l dir entries := by
        rw [outcomes, List.filter_cons_of_pos he]
        rfl
      rw [houtcomes, loadEntries, if_pos he]
      cases loadFile env l (RivicQ.Lib.FilePaths.join dir e.name) with
      | error err =>
        refine ⟨?_, iff_of_true ⟨err, rfl⟩ ⟨err, List.mem_cons_self⟩, fun ms h => nomatch h⟩
        exact Option.map_id.symm ▸ rfl
      | ok m =>
        obtain ⟨hreg, herror, hok⟩ := ih (reg.map (attach m)) (loaded ++ [m])
        refine ⟨hreg.trans ?_, herror.trans ?_, fun ms h => (hok ms h).trans ?_⟩
        · rw [Option.map_map]
          rfl
        · simp only [List.mem_cons, reduceCtorEq, false_or]
        · rw [List.append_assoc]
          rfl
    · have houtcomes : outcomes cm env l dir (e :: entries) = outcomes cm env l dir entries := by
        rw [outcomes, List.filter_cons_of_neg he]
        rfl
      rw [houtcomes, loadEntries, if_neg he]
      exact ih reg loaded

end Load

/-- Loading is atomic exactly if what comes before a failure registers nothing new. -/
theorem atomic_iff (cm : CaseMap) (env : Environment K) (l : ManifestLoader K) (dir : String)
    (reg : Option (Registry F)) : Atomic cm env l dir reg ↔ Spared cm env l dir reg := by
  unfold Atomic Spared load
  cases hdir : env.readDir dir with
  | error err =>
    refine iff_of_true ⟨fun _ _ => ?_, fun ms h => nomatch h⟩ fun entries h => nomatch h
    cases reg with
    | none => exact .none
    | some r => exact .some ⟨fun _ => rfl, rfl⟩
  | ok entries =>
    obtain ⟨hreg, herror, hok⟩ := loadEntries_spec cm env l dir reg [] entries
    have hvalid : ∀ m ∈ untilError (outcomes cm env l dir entries), validate env l m = none :=
      fun m => validate_of_mem
    have hregistered : ∀ r : Registry F, Registered r
        (registrations r.factories (untilError (outcomes cm env l dir entries)))
        ((untilError (outcomes cm env l dir entries)).foldl (fun r m => attach m r) r) :=
      fun r => registered_attach fun m hm => name_of_validate (hvalid m hm)
    have hsucceeds : ∀ ms, (loadEntries cm env l dir reg [] entries).1 = .ok ms →
        (∀ m ∈ ms, validate env l m = none) ∧
          Option.Rel (fun r r' => Registered r (registrations r.factories ms) r') reg
            (loadEntries cm env l dir reg [] entries).2 := by
      intro ms h
      obtain rfl := hok ms h
      refine ⟨hvalid, ?_⟩
      rw [hreg]
      cases reg with
      | none => exact .none
      | some r => exact .some (hregistered r)
    rw [and_iff_left hsucceeds]
    constructor
    · rintro h _ hentries hfails r rfl
      obtain rfl := Except.ok.inj hentries
      obtain ⟨err, herr⟩ := herror.mpr hfails
      have hsame := h err herr
      rw [hreg] at hsame
      cases hsame with
      | some hsame => exact (same_registry_iff (hregistered r)).mp hsame
    · intro h err herr
      rw [hreg]
      cases reg with
      | none => exact .none
      | some r =>
        exact .some ((same_registry_iff (hregistered r)).mpr (h entries rfl (herror.mp ⟨err, herr⟩) r rfl))

section Samples

def newManifest : PluginManifest :=
  { schemaVersion := "1.0", id := "org.acme.new", name := "new", version := "1.0.0"
    entryPoint := "ibm-quantum" }

def newText : String :=
  "\x7b\"schema_version\":\"1.0\",\"id\":\"org.acme.new\",\"name\":\"new\"," ++
    "\"version\":\"1.0.0\",\"entry_point\":\"ibm-quantum\"\x7d"

/-- A directory with a manifest and an empty file behind it. -/
def sample : Environment Unit where
  readDir _ := .ok [⟨"a.json", false⟩, ⟨"b.json", false⟩]
  readFile path := .ok (if path = "plugins/a.json" then ascii newText else [])
  unmarshal raw := if raw = [] then .error "unexpected end of JSON input" else .ok newManifest
  marshal _ := .ok []
  verify _ _ _ := false

def known : Registry Unit := ({} : Registry Unit).register "ibm-quantum" ()

/-- A manifest before one that cannot be parsed stays registered. -/
theorem failed_load_registers :
    ¬ Atomic asciiTables.toCaseMap sample ⟨none, false⟩ "plugins" (some known) := by
  rintro ⟨h, -⟩
  have hload : load asciiTables.toCaseMap sample ⟨none, false⟩ "plugins" (some known) =
      (.error "parse plugin manifest plugins/b.json: unexpected end of JSON input",
        some (attach newManifest known)) := rfl
  have hsame := h _ (congrArg Prod.fst hload)
  rw [hload] at hsame
  cases hsame with
  | some hsame => exact absurd hsame.2 (by decide)

end Samples

end RivicQ.Properties.Plugins
