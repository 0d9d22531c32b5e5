import Mathlib.Data.List.Dedup
import Mathlib.Order.MinMax
import RivicQ.Firmware.Analysis
import RivicQ.Lib.Firsts

namespace RivicQ.Firmware.Iterations

open RivicQ.Lib.Bytes RivicQ.Lib.Groups RivicQ.Lib.Sortings RivicQ.Cryptoscan.Detect
open RivicQ.Certeng.Certificates RivicQ.Firmware.Archives RivicQ.Firmware.Formats
open RivicQ.Firmware.Reports RivicQ.Firmware.Analysis

variable (x : Setup)

/-- What finishing a report can give, where each dedupe function iterates over its map in an order
of its own. -/
structure Finalized (rep fin : Report) : Prop where
  libraries : Sorting LibraryFinding.library (dedupeLibraries rep.libraries) fin.libraries
  algorithms : Sorting AlgorithmFinding.algorithm
    (dedupeAlgorithms (rep.algorithms ++ rep.certificates.flatMap (certificateAlgorithms x)))
    fin.algorithms
  cryptoAPIs : Sorting APIFinding.api (dedupeAPIs rep.cryptoAPIs) fin.cryptoAPIs
  protocols : Sorting ProtocolFinding.protocol (dedupeProtocols rep.protocols) fin.protocols
  rules : Sorting RuleFinding.id (dedupeRules rep.rules) fin.rules
  certificates : Sorting (fun c => c.metadata.subject) (dedupeCerts rep.certificates)
    fin.certificates
  rest : fin = withInventory { rep with
    libraries := fin.libraries
    algorithms := fin.algorithms
    cryptoAPIs := fin.cryptoAPIs
    protocols := fin.protocols
    rules := fin.rules
    certificates := fin.certificates }

/-- An archive member and the result of its analysis go into the report of the archive. -/
def mergeResult (mark : String → String) (rep : Report)
    (e : ArchiveEntry × Except String Report) : Report :=
  mergeMember mark (fun _ => e.2) rep e.1

/-- What the analysis at a depth can give, by the number of levels that are left. -/
inductive Analyzed : Nat → String → Bytes → Except String Report → Prop where
  | deep (name : String) (data : Bytes) : Analyzed 0 name data (.error errLimit)
  | archive {left : Nat} {name : String} {data : Bytes} {ms : Members} {fin : Report}
      {results : List (ArchiveEntry × Except String Report)}
      (hmembers : members x (detectFormat x.cm name data) name data = some ms)
      (hentries : results.map Prod.fst = ms.entries)
      (hresults : ∀ e ∈ results, Analyzed left e.1.name e.1.data e.2)
      (hfin : Finalized x (results.foldl (mergeResult ms.mark)
        { newReport x name data with warnings := ms.warnings }) fin) :
      Analyzed (left + 1) name data (.ok fin)
  | image {left : Nat} {name : String} {data : Bytes} {fin : Report}
      (hmembers : members x (detectFormat x.cm name data) name data = none)
      (hfin : Finalized x (analyzeImage x (newReport x name data) name data) fin) :
      Analyzed (left + 1) name data (.ok fin)

/-- The certificates that are found in an artifact, archive members by the levels that are left. -/
def certificatesIn : Nat → String → Bytes → List CertificateFinding
  | 0, _, _ => []
  | left + 1, name, data =>
    let format := detectFormat x.cm name data
    match members x format name data with
    | some ms => ms.entries.flatMap fun e => certificatesIn left e.name e.data
    | none => (extractFromBytes x.decoders (imageData format data) name).map (certificateFinding x)

section Steps

variable {x} {left : Nat} {name : String} {data : Bytes} {ms : Members}
  {result : Except String Report}

theorem analyzed_members (h : members x (detectFormat x.cm name data) name data = some ms) :
    Analyzed x (left + 1) name data result ↔
      ∃ results : List (ArchiveEntry × Except String Report),
        results.map Prod.fst = ms.entries ∧
        (∀ e ∈ results, Analyzed x left e.1.name e.1.data e.2) ∧
        ∃ fin, Finalized x (results.foldl (mergeResult ms.mark)
          { newReport x name data with warnings := ms.warnings }) fin ∧ result = .ok fin := by
  constructor
  · intro hrun
    cases hrun with
    | @archive _ _ _ ms' fin results hmembers hentries hresults hfin =>
      obtain rfl := Option.some.inj (hmembers.symm.trans h)
      exact ⟨results, hentries, hresults, fin, hfin, rfl⟩
    | image hmembers => exact nomatch hmembers.symm.trans h
  · rintro ⟨results, hentries, hresults, fin, hfin, rfl⟩
    exact .archive h hentries hresults hfin

theorem analyzed_image (h : members x (detectFormat x.cm name data) name data = none) :
    Analyzed x (left + 1) name data result ↔
      ∃ fin, Finalized x (analyzeImage x (newReport x name data) name data) fin ∧
        result = .ok fin := by
  constructor
  · intro hrun
    cases hrun with
    | archive hmembers => exact nomatch hmembers.symm.trans h
    | image _ hfin => exact ⟨_, hfin, rfl⟩
  · rintro ⟨fin, hfin, rfl⟩
    exact .image h hfin

theorem certificatesIn_members (h : members x (detectFormat x.cm name data) name data = some ms) :
    certificatesIn x (left + 1) name data =
      ms.entries.flatMap fun e => certificatesIn x left e.name e.data := by
  simp only [certificatesIn, h]

theorem certificatesIn_image (h : members x (detectFormat x.cm name data) name data = none) :
    certificatesIn x (left + 1) name data =
      (analyzeImage x (newReport x name data) name data).certificates := by
  simp only [certificatesIn, h]
  rfl

theorem sorting_dedupeBy {F : Type} (key : F → String) (merge : F → F → F) (order : F → String)
    (findings : List F) :
    Sorting order (dedupeBy key merge order findings) (dedupeBy key merge order findings) :=
  (sorting_mergeSort order _).of_perm (List.mergeSort_perm _ _).symm

/-- One order of iteration is that of the first findings. -/
theorem finalized_finalize (rep : Report) : Finalized x rep (finalize x rep) :=
  ⟨sorting_dedupeBy .., sorting_dedupeBy .., sorting_dedupeBy .., sorting_dedupeBy ..,
    sorting_dedupeBy .., sorting_dedupeBy .., rfl⟩

theorem analyzed_analyzeDepth (x : Setup) (left : Nat) (name : String) (data : Bytes) :
    Analyzed x left name data (analyzeDepth x left name data) := by
  induction left generalizing name data with
  | zero => exact .deep name data
  | succ left ih =>
    cases h : members x (detectFormat x.cm name data) name data with
    | none =>
      rw [analyzed_image h, analyzeDepth_image h]
      exact ⟨_, finalized_finalize _, rfl⟩
    | some ms =>
      rw [analyzed_members h, analyzeDepth_members h]
      refine ⟨ms.entries.map fun e => (e, analyzeDepth x left e.name e.data), ?_, ?_, _,
        finalized_finalize _, ?_⟩
      · rw [List.map_map]
        exact List.map_id _
      · intro e he
        obtain ⟨e, -, rfl⟩ := List.mem_map.mp he
        exact ih e.name e.data
      · rw [List.foldl_map]
        rfl

end Steps

section Dedupe

variable {x} {F : Type} {name : F → String} {merge : F → F → F} {order : F → String}
  {a a' out out' : List F}

theorem dedupeBy_perm (h : ∀ k, summary merge (a.filter fun v => name v = k) =
      summary merge (a'.filter fun v => name v = k)) :
    (dedupeBy name merge order a).Perm (dedupeBy name merge order a') :=
  (List.mergeSort_perm _ _).trans ((values_perm h).trans (List.mergeSort_perm _ _).symm)

theorem nodup_map_dedupeBy (hname : ∀ u v, name u = name v → name (merge u v) = name u) :
    ((dedupeBy name merge order a).map name).Nodup :=
  ((List.mergeSort_perm _ _).map name).nodup_iff.mpr (nodup_map_key_values hname)

/-- In the order of their names the findings come out in one way only. -/
theorem dedupeBy_unique (h : Sorting name (dedupeBy name merge name a) out)
    (h' : Sorting name (dedupeBy name merge name a) out')
    (hname : ∀ u v, name u = name v → name (merge u v) = name u) : out = out' :=
  h.unique h' fun _ hu _ hv => key_injective hname (List.mem_mergeSort.mp hu)
    (List.mem_mergeSort.mp hv)

theorem mem_union {s : String} {m m' : List String} : s ∈ union m m' ↔ s ∈ m ∨ s ∈ m' := by
  rw [union, List.mem_mergeSort, List.mem_dedup, List.mem_append]

theorem nodup_union (m m' : List String) : (union m m').Nodup :=
  (List.mergeSort_perm _ _).nodup_iff.mpr (List.nodup_dedup _)

theorem union_right_comm (m a b : List String) :
    union (union m a) b = union (union m b) a := by
  have hperm : (union (union m a) b).Perm (union (union m b) a) := by
    refine (List.perm_ext_iff_of_nodup (nodup_union _ _) (nodup_union _ _)).mpr fun s => ?_
    rw [mem_union, mem_union, mem_union, mem_union, or_right_comm]
  have hsorting : ∀ m m' : List String, Sorting id (union m m') (union m m') := fun m m' =>
    ⟨.refl _, (sorting_mergeSort id _).sorted⟩
  exact (hsorting _ _).unique ((hsorting _ _).of_perm hperm.symm) fun _ _ _ _ h => h

/-- The findings of algorithms that are named already can come in any order. -/
theorem dedupeAlgorithms_perm {algorithms later later' : List AlgorithmFinding}
    (hperm : later.Perm later')
    (hnamed : namesOf AlgorithmFinding.algorithm later ⊆
      namesOf AlgorithmFinding.algorithm algorithms) :
    (dedupeAlgorithms (algorithms ++ later)).Perm (dedupeAlgorithms (algorithms ++ later')) := by
  refine dedupeBy_perm fun k => ?_
  rw [List.filter_append, List.filter_append]
  by_cases hk : k ∈ namesOf AlgorithmFinding.algorithm algorithms
  · refine summary_append_perm (fun u v w => ?_) ?_ (hperm.filter _)
    · simp only [union_right_comm, Bool.or_right_comm, max_right_comm]
    · obtain ⟨u, hu, huk⟩ := List.mem_map.mp hk
      exact List.ne_nil_of_mem (List.mem_filter.mpr ⟨hu, decide_eq_true huk⟩)
  · have hnone : ∀ l : List AlgorithmFinding, l.Perm later →
        l.filter (fun v => v.algorithm = k) = [] := by
      intro l hl
      refine List.filter_eq_nil_iff.mpr fun v hv hvk => hk (hnamed ?_)
      exact List.mem_map.mpr ⟨v, hl.subset hv, of_decide_eq_true hvk⟩
    rw [hnone later (.refl _), hnone later' hperm.symm]

end Dedupe

section Runs

variable {x} {rep rep' fin fin' parent parent' child child' : Report} {k : String}

/-- The last certificate of some fingerprint. -/
def latest (k : String) (certificates : List CertificateFinding) : Option CertificateFinding :=
  (certificates.filter fun c => fingerprint c = k).getLast?

theorem latest_append (k : String) (a b : List CertificateFinding) :
    latest k (a ++ b) = (latest k b).or (latest k a) := by
  rw [latest, List.filter_append, List.getLast?_append, latest, latest]

theorem dedupeCerts_perm {a b : List CertificateFinding} (h : ∀ k, latest k a = latest k b) :
    (dedupeCerts a).Perm (dedupeCerts b) :=
  dedupeBy_perm fun k => (summary_last.trans (h k)).trans summary_last.symm

theorem filter_group (k : String) (a : List CertificateFinding) :
    (group fingerprint (fun _ c => c) a).values.filter (fun c => fingerprint c = k) =
      (latest k a).toList := by
  rw [filter_values fun _ _ h => h.symm, summary_last, latest]

theorem mem_dedupeCerts {c : CertificateFinding} {a : List CertificateFinding} :
    c ∈ dedupeCerts a ↔ latest (fingerprint c) a = some c := by
  rw [← Option.mem_toList, ← filter_group, List.mem_filter, and_iff_left (decide_eq_true rfl)]
  exact List.mem_mergeSort

/-- The certificates that stay are the last ones of their fingerprints. -/
theorem latest_dedupeCerts {a out : List CertificateFinding} (h : out.Perm (dedupeCerts a)) :
    latest k out = latest k a := by
  have hperm : (out.filter fun c => fingerprint c = k).Perm (latest k a).toList :=
    ((h.trans (List.mergeSort_perm _ _)).filter _).trans (.of_eq (filter_group k a))
  have hfilter : out.filter (fun c => fingerprint c = k) = (latest k a).toList := by
    cases hlast : latest k a with
    | none =>
      rw [hlast] at hperm
      exact List.perm_nil.mp hperm
    | some c =>
      rw [hlast] at hperm
      exact List.perm_singleton.mp hperm
  rw [latest, hfilter]
  cases latest k a <;> rfl

/-- A report but for its certificates and what is derived from them. -/
def bare (rep : Report) : Report := { rep with certificates := [], cbom := [], graph := {} }

/-- Reports that differ in the order of their certificates at most, and not in the last one of a
fingerprint. -/
structure Alike (rep rep' : Report) : Prop where
  bare : bare rep = bare rep'
  certificates : rep.certificates.Perm rep'.certificates
  latest : ∀ k, latest k rep.certificates = latest k rep'.certificates

theorem alike_refl (rep : Report) : Alike rep rep := ⟨rfl, .refl _, fun _ => rfl⟩

theorem alike_warn (h : Alike rep rep') (warning : String) :
    Alike { rep with warnings := rep.warnings ++ [warning] }
      { rep' with warnings := rep'.warnings ++ [warning] } := by
  refine ⟨?_, h.certificates, h.latest⟩
  have hwarn : ∀ rep : Report, bare { rep with warnings := rep.warnings ++ [warning] } =
      { bare rep with warnings := (bare rep).warnings ++ [warning] } := fun _ => rfl
  rw [hwarn, hwarn, h.bare]

theorem alike_mergeReport (h : Alike parent parent') (hchild : Alike child child') :
    Alike (mergeReport parent child) (mergeReport parent' child') := by
  refine ⟨?_, h.certificates.append hchild.certificates, fun k => ?_⟩
  · have hmerge : ∀ parent child : Report, bare (mergeReport parent child) =
        bare (mergeReport (bare parent) (bare child)) := fun _ _ => rfl
    rw [hmerge, hmerge parent', h.bare, hchild.bare]
  · change latest k (parent.certificates ++ child.certificates) =
      latest k (parent'.certificates ++ child'.certificates)
    rw [latest_append, latest_append, h.latest, hchild.latest]

variable (x) in
/-- The algorithms of the certificates of a report are among its algorithms. -/
def Covered (rep : Report) : Prop :=
  namesOf AlgorithmFinding.algorithm (rep.certificates.flatMap (certificateAlgorithms x)) ⊆
    namesOf AlgorithmFinding.algorithm rep.algorithms

theorem namesOf_perm {F : Type} {name : F → String} {a b : List F} (h : a.Perm b) :
    namesOf name a = namesOf name b := by
  ext n
  exact (h.map name).mem_iff

theorem covered_finalized (h : Finalized x rep fin) : Covered x fin := by
  rw [Covered, namesOf_perm h.algorithms.perm, namesOf_dedupeAlgorithms, namesOf_append]
  intro n hn
  obtain ⟨a, ha, rfl⟩ := List.mem_map.mp hn
  obtain ⟨c, hc, hac⟩ := List.mem_flatMap.mp ha
  have hmem : c ∈ rep.certificates := mem_dedupeBy_last (h.certificates.perm.subset hc)
  exact .inr (List.mem_map_of_mem (List.mem_flatMap.mpr ⟨c, hmem, hac⟩))

theorem covered_mergeReport (h : Covered x parent) (hchild : Covered x child) :
    Covered x (mergeReport parent child) := by
  change namesOf _ ((parent.certificates ++ child.certificates).flatMap _) ⊆
    namesOf _ (parent.algorithms ++ child.algorithms)
  rw [List.flatMap_append, namesOf_append, namesOf_append]
  exact Set.union_subset_union h hchild

theorem latest_finalized (h : Finalized x rep fin) :
    latest k fin.certificates = latest k rep.certificates :=
  latest_dedupeCerts h.certificates.perm

theorem bare_finalized (h : Finalized x rep fin) :
    bare fin = { bare rep with
      libraries := fin.libraries
      algorithms := fin.algorithms
      cryptoAPIs := fin.cryptoAPIs
      protocols := fin.protocols
      rules := fin.rules } :=
  (congrArg bare h.rest).trans rfl

/-- But for the order of the certificates, finishing gives the same in every order of iteration. -/
theorem alike_finalized (h : Alike rep rep')
    (halgorithms : rep.certificates = rep'.certificates ∨ Covered x rep)
    (hfin : Finalized x rep fin) (hfin' : Finalized x rep' fin') : Alike fin fin' := by
  have hlibraries : rep.libraries = rep'.libraries := (congrArg Report.libraries h.bare :)
  have halgs : rep.algorithms = rep'.algorithms := (congrArg Report.algorithms h.bare :)
  have hapis : rep.cryptoAPIs = rep'.cryptoAPIs := (congrArg Report.cryptoAPIs h.bare :)
  have hprotocols : rep.protocols = rep'.protocols := (congrArg Report.protocols h.bare :)
  have hrules : rep.rules = rep'.rules := (congrArg Report.rules h.bare :)
  have hdeduped : (dedupeAlgorithms (rep'.algorithms ++
        rep'.certificates.flatMap (certificateAlgorithms x))).Perm
      (dedupeAlgorithms (rep.algorithms ++
        rep.certificates.flatMap (certificateAlgorithms x))) := by
    rw [← halgs]
    obtain heq | hcovered := halgorithms
    · rw [heq]
    · exact (dedupeAlgorithms_perm (h.certificates.flatMap_right _) hcovered).symm
  have hlibraries : fin.libraries = fin'.libraries :=
    dedupeBy_unique (hlibraries ▸ hfin.libraries) hfin'.libraries fun _ _ _ => rfl
  have halgs : fin.algorithms = fin'.algorithms :=
    dedupeBy_unique hfin.algorithms (hfin'.algorithms.of_perm hdeduped) fun _ _ _ => rfl
  have hapis : fin.cryptoAPIs = fin'.cryptoAPIs :=
    dedupeBy_unique (hapis ▸ hfin.cryptoAPIs) hfin'.cryptoAPIs fun _ _ _ => rfl
  have hprotocols : fin.protocols = fin'.protocols :=
    dedupeBy_unique (hprotocols ▸ hfin.protocols) hfin'.protocols fun _ _ _ => rfl
  have hrules : fin.rules = fin'.rules :=
    dedupeBy_unique (hrules ▸ hfin.rules) hfin'.rules fun _ _ _ => rfl
  refine ⟨?_, ?_, fun k => ?_⟩
  · rw [bare_finalized hfin, bare_finalized hfin', h.bare, hlibraries, halgs, hapis, hprotocols,
      hrules]
  · exact hfin.certificates.perm.trans
      ((dedupeCerts_perm h.latest).trans hfin'.certificates.perm.symm)
  · rw [latest_finalized hfin, latest_finalized hfin', h.latest]

variable {left : Nat} {name : String} {data : Bytes} {result result' : Except String Report}
  {results results' : List (ArchiveEntry × Except String Report)} {mark : String → String}

/-- Results of one analysis in two runs. -/
inductive AlikeResults : Except String Report → Except String Report → Prop where
  | error (err : String) : AlikeResults (.error err) (.error err)
  | ok {rep rep' : Report} (h : Alike rep rep') : AlikeResults (.ok rep) (.ok rep')

variable (x) in
/-- A result is about some certificates: of each fingerprint it has the last one. -/
inductive Reports (certificates : List CertificateFinding) : Except String Report → Prop where
  | error (err : String) (h : certificates = []) : Reports certificates (.error err)
  | ok {rep : Report} (hcovered : Covered x rep)
      (hlatest : ∀ k, latest k rep.certificates = latest k certificates) :
      Reports certificates (.ok rep)

theorem alike_mergeResult {e e' : ArchiveEntry × Except String Report} (h : Alike rep rep')
    (hentry : e.1 = e'.1) (hresult : AlikeResults e.2 e'.2) :
    Alike (mergeResult mark rep e) (mergeResult mark rep' e') := by
  obtain ⟨entry, result⟩ := e
  obtain ⟨entry', result'⟩ := e'
  obtain rfl : entry = entry' := hentry
  cases hresult with
  | error err => exact alike_warn h _
  | ok hchild => exact alike_mergeReport h hchild

/-- The members of an archive go into its report in their order. -/
theorem alike_foldl (hentries : results.map Prod.fst = results'.map Prod.fst)
    (hresults : ∀ e ∈ results, ∀ e' ∈ results', e.1 = e'.1 → AlikeResults e.2 e'.2)
    (h : Alike rep rep') :
    Alike (results.foldl (mergeResult mark) rep) (results'.foldl (mergeResult mark) rep') := by
  induction results generalizing results' rep rep' with
  | nil =>
    obtain rfl : results' = [] := List.map_eq_nil_iff.mp hentries.symm
    exact h
  | cons e results ih =>
    cases results' with
    | nil => exact nomatch hentries
    | cons e' results' =>
      rw [List.map_cons, List.map_cons] at hentries
      obtain ⟨hentry, hrest⟩ := List.cons.inj hentries
      rw [List.foldl_cons, List.foldl_cons]
      refine ih hrest (fun a ha b hb => ?_) ?_
      · exact hresults a (List.mem_cons_of_mem e ha) b (List.mem_cons_of_mem e' hb)
      · exact alike_mergeResult h hentry
          (hresults e List.mem_cons_self e' List.mem_cons_self hentry)

theorem reports_mergeResult {e : ArchiveEntry × Except String Report}
    {certificates own : List CertificateFinding} (hcovered : Covered x rep)
    (hlatest : ∀ k, latest k rep.certificates = latest k own) (h : Reports x certificates e.2) :
    Covered x (mergeResult mark rep e) ∧
      ∀ k, latest k (mergeResult mark rep e).certificates = latest k (own ++ certificates) := by
  obtain ⟨entry, result⟩ := e
  cases h with
  | error err hnone =>
    rw [hnone, List.append_nil]
    exact ⟨hcovered, hlatest⟩
  | @ok child hchild hlast =>
    refine ⟨covered_mergeReport hcovered hchild, fun k => ?_⟩
    change latest k (rep.certificates ++ child.certificates) = _
    rw [latest_append, latest_append, hlatest, hlast]

theorem reports_foldl (found : ArchiveEntry → List CertificateFinding)
    {own : List CertificateFinding} (hresults : ∀ e ∈ results, Reports x (found e.1) e.2)
    (hcovered : Covered x rep) (hlatest : ∀ k, latest k rep.certificates = latest k own) :
    Covered x (results.foldl (mergeResult mark) rep) ∧
      ∀ k, latest k (results.foldl (mergeResult mark) rep).certificates =
        latest k (own ++ (results.map Prod.fst).flatMap found) := by
  induction results generalizing rep own with
  | nil =>
    rw [List.map_nil, List.flatMap_nil, List.append_nil]
    exact ⟨hcovered, hlatest⟩
  | cons e results ih =>
    obtain ⟨he, hrest⟩ := List.forall_mem_cons.mp hresults
    obtain ⟨hcovered, hlatest⟩ := reports_mergeResult hcovered hlatest he
    rw [List.map_cons, List.flatMap_cons, ← List.append_assoc]
    exact ih hrest hcovered hlatest

/-- With its members, the report of an archive is about all of their certificates. -/
theorem reports_members (ms : Members) (hentries : results.map Prod.fst = ms.entries)
    (hresults : ∀ e ∈ results, Reports x (certificatesIn x left e.1.name e.1.data) e.2)
    (hrep : rep.certificates = []) :
    Covered x (results.foldl (mergeResult ms.mark) rep) ∧
      ∀ k, latest k (results.foldl (mergeResult ms.mark) rep).certificates =
        latest k (ms.entries.flatMap fun e => certificatesIn x left e.name e.data) := by
  have hcovered : Covered x rep := by
    rw [Covered, hrep, List.flatMap_nil, namesOf_nil]
    exact Set.empty_subset _
  have hlatest : ∀ k, latest k rep.certificates = latest k [] := fun k => by rw [hrep]
  rw [← hentries]
  exact reports_foldl (fun e => certificatesIn x left e.name e.data) hresults hcovered hlatest

/-- Whatever the orders of iteration, the result is about the certificates of the artifact. -/
theorem reports_analyzed (h : Analyzed x left name data result) :
    Reports x (certificatesIn x left name data) result := by
  induction h with
  | deep name data => exact .error _ rfl
  | @archive left name data ms fin results hmembers hentries _ hfin ih =>
    obtain ⟨-, hlatest⟩ := reports_members ms hentries ih
      (rfl : ({ newReport x name data with warnings := ms.warnings } : Report).certificates = [])
    rw [certificatesIn_members hmembers]
    exact .ok (covered_finalized hfin) fun k => (latest_finalized hfin).trans (hlatest k)
  | image hmembers hfin =>
    rw [certificatesIn_image hmembers]
    exact .ok (covered_finalized hfin) fun k => latest_finalized hfin

/-- Two runs on one artifact differ in the order of the certificates at most. -/
theorem alike_analyzed (h : Analyzed x left name data result)
    (h' : Analyzed x left name data result') : AlikeResults result result' := by
  induction left generalizing name data result result' with
  | zero =>
    cases h
    cases h'
    exact .error _
  | succ left ih =>
    cases hmembers : members x (detectFormat x.cm name data) name data with
    | none =>
      obtain ⟨fin, hfin, rfl⟩ := (analyzed_image hmembers).mp h
      obtain ⟨fin', hfin', rfl⟩ := (analyzed_image hmembers).mp h'
      exact .ok (alike_finalized (alike_refl _) (.inl rfl) hfin hfin')
    | some ms =>
      obtain ⟨results, hentries, hresults, fin, hfin, rfl⟩ := (analyzed_members hmembers).mp h
      obtain ⟨results', hentries', hresults', fin', hfin', rfl⟩ :=
        (analyzed_members hmembers).mp h'
      obtain ⟨hcovered, -⟩ := reports_members ms hentries
        (fun e he => reports_analyzed (hresults e he))
        (rfl : ({ newReport x name data with warnings := ms.warnings } : Report).certificates = [])
      refine .ok (alike_finalized (alike_foldl (hentries.trans hentries'.symm) ?_ (alike_refl _))
        (.inr hcovered) hfin hfin')
      intro e he e' he' hentry
      exact ih (hresults e he) (hentry ▸ hresults' e' he')

theorem foldl_rule {P : Report → Prop}
    (hwarn : ∀ rep warnings, P rep → P { rep with warnings := warnings })
    (hmerge : ∀ parent child, P parent → P child → P (mergeReport parent child))
    (hresults : ∀ e ∈ results, ∀ child, e.2 = .ok child → P child) (hrep : P rep) :
    P (results.foldl (mergeResult mark) rep) := by
  induction results generalizing rep with
  | nil => exact hrep
  | cons e results ih =>
    obtain ⟨he, hrest⟩ := List.forall_mem_cons.mp hresults
    refine ih hrest ?_
    rw [mergeResult, mergeMember]
    cases hresult : e.2 with
    | error err => exact hwarn rep _ hrep
    | ok child => exact hmerge rep child hrep (he child hresult)

/-- What holds of new reports and of images, and survives a merge and a finishing, holds of every
report. -/
theorem analyzed_rule {P : Report → Prop}
    (hnew : ∀ name data, P (newReport x name data))
    (hwarn : ∀ rep warnings, P rep → P { rep with warnings := warnings })
    (himage : ∀ name data, P (analyzeImage x (newReport x name data) name data))
    (hmerge : ∀ parent child, P parent → P child → P (mergeReport parent child))
    (hfinal : ∀ rep fin, Finalized x rep fin → P rep → P fin)
    (h : Analyzed x left name data result) : ∀ rep, result = .ok rep → P rep := by
  induction h with
  | deep name data => exact fun _ h => nomatch h
  | image _ hfin =>
    rintro _ ⟨⟩
    exact hfinal _ _ hfin (himage _ _)
  | @archive left name data ms fin results _ _ _ hfin ih =>
    rintro _ ⟨⟩
    exact hfinal _ fin hfin (foldl_rule hwarn hmerge ih (hwarn _ _ (hnew name data)))

/-- The orders of the last finishing are free, and what it is given has the certificates of the
artifact. -/
theorem analyzed_succ (h : Analyzed x (left + 1) name data result) :
    ∃ rep fin, result = .ok fin ∧ Finalized x rep fin ∧
      (dedupeCerts rep.certificates).Perm
        (dedupeCerts (certificatesIn x (left + 1) name data)) ∧
      ∀ fin, Finalized x rep fin → Analyzed x (left + 1) name data (.ok fin) := by
  cases hmembers : members x (detectFormat x.cm name data) name data with
  | none =>
    obtain ⟨fin, hfin, rfl⟩ := (analyzed_image hmembers).mp h
    refine ⟨_, fin, rfl, hfin, ?_, fun fin hfin => (analyzed_image hmembers).mpr ⟨fin, hfin, rfl⟩⟩
    rw [certificatesIn_image hmembers]
  | some ms =>
    obtain ⟨results, hentries, hresults, fin, hfin, rfl⟩ := (analyzed_members hmembers).mp h
    obtain ⟨-, hlatest⟩ := reports_members ms hentries
      (fun e he => reports_analyzed (hresults e he))
      (rfl : ({ newReport x name data with warnings := ms.warnings } : Report).certificates = [])
    refine ⟨_, fin, rfl, hfin, ?_, fun fin hfin =>
      (analyzed_members hmembers).mpr ⟨results, hentries, hresults, fin, hfin, rfl⟩⟩
    rw [certificatesIn_members hmembers]
    exact dedupeCerts_perm hlatest

/-- Any order of the certificates that are sorted by subject is one of some iteration. -/
theorem finalized_of_sorting {certificates : List CertificateFinding}
    (h : Sorting (fun c => c.metadata.subject) (dedupeCerts rep.certificates) certificates) :
    Finalized x rep (withInventory { finalize x rep with certificates := certificates }) :=
  ⟨sorting_dedupeBy .., sorting_dedupeBy .., sorting_dedupeBy .., sorting_dedupeBy ..,
    sorting_dedupeBy .., h, rfl⟩

/-- What is derived from the findings of a report is given by them. -/
theorem eq_withInventory (h : Finalized x rep fin) :
    fin = withInventory { bare fin with certificates := fin.certificates } := by
  rw [h.rest]
  rfl

theorem eq_of_alike (hfin : Finalized x rep fin) (hfin' : Finalized x rep' fin')
    (h : Alike fin fin') (hcertificates : fin.certificates = fin'.certificates) : fin = fin' := by
  rw [eq_withInventory hfin, eq_withInventory hfin', h.bare, hcertificates]

end Runs

end RivicQ.Firmware.Iterations
