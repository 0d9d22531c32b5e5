import RivicQ.Firmware.Iterations
import RivicQ.Firmware.Nesting
import RivicQ.Lib.Framing

namespace RivicQ.Firmware.Compare

open RivicQ.Lib.Base64 RivicQ.Lib.Groups RivicQ.Lib.Sortings RivicQ.Lib.Framing
open RivicQ.Lib.GoStrings (CaseMap equalFold)
open RivicQ.Quantum.QiskitProfile RivicQ.Cryptoscan.Detect RivicQ.Certeng.Certificates
open RivicQ.Firmware.Archives RivicQ.Firmware.Formats RivicQ.Firmware.Reports
open RivicQ.Firmware.Analysis RivicQ.Firmware.Nesting RivicQ.Firmware.Iterations

/-- What is added and what is removed between two sets of names. -/
structure Changes where
  added : List String
  removed : List String

/-- The result of comparing two analyses. -/
structure Diff where
  fromName : String
  toName : String
  libraries : Changes
  algorithms : Changes
  cryptoAPIs : Changes
  protocols : Changes
  certificatesChanged : Bool
  riskChanged : Bool
  riskFrom : String
  riskTo : String
  pqcStatusChanged : Bool
  pqcStatusFrom : List String
  pqcStatusTo : List String
  changed : Bool

def sortStrings (texts : List String) : List String := texts.mergeSort fun s t => s ≤ t

def setOf (names : List String) : List String := names.dedup

def diffSets (fromSet toSet : List String) : Changes where
  added := sortStrings (toSet.filter fun k => k ∉ fromSet)
  removed := sortStrings (fromSet.filter fun k => k ∉ toSet)

def Changes.any (c : Changes) : Bool := decide (c.added.length > 0) || decide (c.removed.length > 0)

def fingerprints (rep : Report) : List String := rep.certificates.map fingerprint

def certSet (rep : Report) : String := terminated ';' (fingerprints rep)

def pqcLine (a : AlgorithmFinding) : String := a.algorithm ++ "=" ++ a.pqcStatus

def pqcSet (rep : Report) : List String := sortStrings (rep.algorithms.map pqcLine)

def join (s : List String) : String := terminated '\n' s

/-- What changed between two analyses. -/
def compare (fromRep toRep : Report) : Diff :=
  let libraries := diffSets (setOf (fromRep.libraries.map LibraryFinding.library))
    (setOf (toRep.libraries.map LibraryFinding.library))
  let algorithms := diffSets (setOf (fromRep.algorithms.map AlgorithmFinding.algorithm))
    (setOf (toRep.algorithms.map AlgorithmFinding.algorithm))
  let cryptoAPIs := diffSets (setOf (fromRep.cryptoAPIs.map APIFinding.api))
    (setOf (toRep.cryptoAPIs.map APIFinding.api))
  let protocols := diffSets (setOf (fromRep.protocols.map ProtocolFinding.protocol))
    (setOf (toRep.protocols.map ProtocolFinding.protocol))
  let certificatesChanged := decide (certSet fromRep ≠ certSet toRep)
  let riskChanged := decide (highestRisk fromRep ≠ highestRisk toRep)
  let pqcStatusChanged := decide (join (pqcSet fromRep) ≠ join (pqcSet toRep))
  { fromName := fromRep.fileName, toName := toRep.fileName
    libraries, algorithms, cryptoAPIs, protocols, certificatesChanged, riskChanged
    riskFrom := highestRisk fromRep, riskTo := highestRisk toRep
    pqcStatusChanged, pqcStatusFrom := pqcSet fromRep, pqcStatusTo := pqcSet toRep
    changed := libraries.any || algorithms.any || cryptoAPIs.any || protocols.any ||
      certificatesChanged || riskChanged || pqcStatusChanged }

section Sets

variable {a b : List String} {k : String}

theorem mem_sortStrings : k ∈ sortStrings a ↔ k ∈ a := List.mem_mergeSort

/-- What is added is in the second set and not in the first one. -/
theorem mem_added : k ∈ (diffSets (setOf a) (setOf b)).added ↔ k ∈ b ∧ k ∉ a := by
  simp only [diffSets, setOf, mem_sortStrings, List.mem_filter, List.mem_dedup, decide_eq_true_iff]

theorem nodup_added : (diffSets (setOf a) (setOf b)).added.Nodup :=
  (List.mergeSort_perm _ _).nodup_iff.mpr ((List.nodup_dedup b).filter _)

theorem mem_removed : k ∈ (diffSets (setOf a) (setOf b)).removed ↔ k ∈ a ∧ k ∉ b :=
  mem_added

theorem nodup_removed : (diffSets (setOf a) (setOf b)).removed.Nodup :=
  nodup_added

/-- Nothing is added and nothing removed exactly if the sets are equal. -/
theorem any_eq_false_iff : (diffSets (setOf a) (setOf b)).any = false ↔ ∀ k, k ∈ a ↔ k ∈ b := by
  simp only [Changes.any, Bool.or_eq_false_iff, decide_eq_false_iff_not, gt_iff_lt,
    List.length_pos_iff, ne_eq, not_not, List.eq_nil_iff_forall_not_mem, mem_added, mem_removed]
  constructor
  · rintro ⟨hadded, hremoved⟩ k
    exact ⟨fun ha => not_not.mp fun hb => hremoved k ⟨ha, hb⟩,
      fun hb => not_not.mp fun ha => hadded k ⟨hb, ha⟩⟩
  · intro h
    exact ⟨fun k hk => hk.2 ((h k).mpr hk.1), fun k hk => hk.2 ((h k).mp hk.1)⟩

end Sets

section Plain

/-- The names that algorithms are found by, from strings and from certificates. -/
def algorithmNames : List String :=
  algorithmCatalog.map AlgorithmRule.algorithm ++ (keyCases ++ hashCases).map (·.2)

def statuses : List String :=
  ["quantum_safe", "broken_classical", "migration_required", "quantum_resistant",
    "migration_recommended", "unclassified"]

/-- An algorithm with one of the names, and the status of that name. -/
structure PlainAlgorithm (cm : CaseMap) (a : AlgorithmFinding) : Prop where
  name : a.algorithm ∈ algorithmNames
  status : a.pqcStatus = pqcStatus (classify cm a.algorithm 0)

/-- The findings of a report by fingerprints in hexadecimal, and by names from the tables. -/
structure PlainFindings (cm : CaseMap) (rep : Report) : Prop where
  certificates : ∀ c ∈ rep.certificates, ∃ digest, fingerprint c = hexString digest
  algorithms : ∀ a ∈ rep.algorithms, PlainAlgorithm cm a

variable {cm : CaseMap} {x : Setup} {rep fin : Report} {left : Nat} {name : String} {data : List UInt8}

theorem pqcStatus_mem (cl : AlgorithmScore) : pqcStatus cl ∈ statuses := by
  unfold pqcStatus
  split_ifs
  · decide
  · decide
  · cases cl.attackClass <;> decide
  · cases cl.attackClass <;> decide

theorem mem_algorithmNames {n : String} : n ∈ algorithmNames ↔
    (∃ rule ∈ algorithmCatalog, rule.algorithm = n) ∨ n ∈ (keyCases ++ hashCases).map (·.2) := by
  rw [algorithmNames, List.mem_append, List.mem_map]

theorem plain_detectAlgorithms {surface : Surface} {a : AlgorithmFinding}
    (h : a ∈ detectAlgorithms cm surface) : PlainAlgorithm cm a := by
  rw [detectAlgorithms, mem_detectBy] at h
  obtain ⟨rule, hrule, -, rfl⟩ := h
  constructor
  · exact mem_algorithmNames.mpr (.inl ⟨rule, hrule, rfl⟩)
  · dsimp only

theorem firstCase_mem {s n : String} {cases : List (List String × String)}
    (h : n ∈ firstCase s cases) : n ∈ cases.map (·.2) := by
  obtain ⟨c, hc, rfl⟩ := Option.map_eq_some_iff.mp (Option.mem_toList.mp h)
  exact List.mem_map_of_mem (List.mem_of_find?_eq_some hc)

theorem plain_certificateAlgorithms {c : CertificateFinding} {a : AlgorithmFinding}
    (h : a ∈ certificateAlgorithms x c) : PlainAlgorithm x.cm a := by
  obtain ⟨n, hn, rfl⟩ := List.mem_map.mp h
  rw [algorithmsFromCert, List.mem_mergeSort, List.mem_dedup] at hn
  have hname : n ∈ (keyCases ++ hashCases).map (·.2) := by
    rw [List.map_append]
    simp only [certificateNames, List.mem_append] at hn
    obtain (hn | hn) | hn | hn := hn
    · exact List.mem_append_left _ (firstCase_mem hn)
    · exact List.mem_append_right _ (firstCase_mem hn)
    · exact List.mem_append_left _ (firstCase_mem hn)
    · exact List.mem_append_right _ (firstCase_mem hn)
  have hstatus := algorithm_status x.cm n
    ("certificate " ++ shortFP c.metadata.fingerprintSHA256 ++ " (" ++ n ++ ")")
  constructor
  · rw [hstatus.1, catalogName, mem_algorithmNames]
    cases hfind : algorithmCatalog.find? fun r => equalFold x.cm r.algorithm n with
    | none => exact .inr hname
    | some rule => exact .inl ⟨rule, List.mem_of_find?_eq_some hfind, rfl⟩
  · rw [hstatus.2, hstatus.1]

/-- Each algorithm that stays has the name and the status of one that came in. -/
theorem plain_dedupeAlgorithms {algorithms : List AlgorithmFinding}
    (h : ∀ a ∈ algorithms, PlainAlgorithm cm a) : ∀ a ∈ dedupeAlgorithms algorithms,
      PlainAlgorithm cm a := by
  intro a ha
  obtain ⟨v, -, hsummary⟩ := mem_values.mp (List.mem_mergeSort.mp ha)
  obtain ⟨w, hw, hname, hstatus⟩ := summary_rule
    (fun vs r => ∃ w ∈ vs, r.algorithm = w.algorithm ∧ r.pqcStatus = w.pqcStatus)
    (fun v => ⟨v, List.mem_singleton_self v, rfl, rfl⟩)
    (fun vs r v ⟨w, hw, hr⟩ => ⟨w, List.mem_append_left _ hw, hr⟩) hsummary
  have hplain := h w (List.mem_of_mem_filter hw)
  exact ⟨hname ▸ hplain.name, by rw [hstatus, hname, hplain.status]⟩

theorem plain_finalized (hfin : Finalized x rep fin) (h : PlainFindings x.cm rep) :
    PlainFindings x.cm fin := by
  refine ⟨fun c hc => ?_, fun a ha => ?_⟩
  · exact h.certificates c (mem_dedupeBy_last (hfin.certificates.perm.subset hc))
  · refine plain_dedupeAlgorithms (fun a ha => ?_) a (hfin.algorithms.perm.subset ha)
    obtain ha | ha := List.mem_append.mp ha
    · exact h.algorithms a ha
    · obtain ⟨c, -, hac⟩ := List.mem_flatMap.mp ha
      exact plain_certificateAlgorithms hac

theorem plain_analyzed (h : Analyzed x left name data (.ok rep)) : PlainFindings x.cm rep := by
  refine analyzed_rule (fun _ _ => ⟨nofun, nofun⟩) (fun _ _ h => ⟨h.certificates, h.algorithms⟩)
    (fun name data => ⟨?_, ?_⟩) (fun parent child h hchild => ⟨?_, ?_⟩)
    (fun _ _ => plain_finalized) h rep rfl
  · intro c hc
    obtain ⟨m, hm, rfl⟩ := List.mem_map.mp (List.mem_append.mp hc |>.resolve_left nofun)
    obtain ⟨cert, rfl⟩ := parsed_extractFromBytes hm
    exact ⟨_, rfl⟩
  · exact fun a => plain_detectAlgorithms
  · exact List.forall_mem_append.mpr ⟨h.certificates, hchild.certificates⟩
  · exact List.forall_mem_append.mpr ⟨h.algorithms, hchild.algorithms⟩

/-- A report by plain findings whose algorithms are in the order of their names, one of each. -/
structure Plain (cm : CaseMap) (rep : Report) : Prop extends PlainFindings cm rep where
  sorted : rep.algorithms.Pairwise fun a b => a.algorithm ≤ b.algorithm
  distinct : (rep.algorithms.map AlgorithmFinding.algorithm).Nodup

theorem plain_report (h : Analyzed x (left + 1) name data (.ok rep)) : Plain x.cm rep := by
  obtain ⟨rep', fin, ⟨⟩, hfin, -, -⟩ := analyzed_succ h
  have hdistinct : ((dedupeAlgorithms (rep'.algorithms ++
      rep'.certificates.flatMap (certificateAlgorithms x))).map AlgorithmFinding.algorithm).Nodup :=
    nodup_map_dedupeBy fun _ _ _ => rfl
  exact ⟨plain_analyzed h, hfin.algorithms.sorted,
    (hfin.algorithms.perm.map _).nodup_iff.mpr hdistinct⟩

end Plain

section Texts

variable {cm cm' : CaseMap} {rep rep' : Report} {a b : AlgorithmFinding}

theorem semicolon_not_mem {digest : List UInt8} : ';' ∉ (hexString digest).toList := by
  rw [hexString, String.toList_ofList]
  intro h
  exact absurd (mem_hexChars h).1 (by decide)

/-- The texts that certificates are compared by are the same exactly if the fingerprints are, in
the order they are listed in. -/
theorem certSet_eq_iff (h : Plain cm rep) (h' : Plain cm' rep') :
    certSet rep = certSet rep' ↔ fingerprints rep = fingerprints rep' := by
  have hplain : ∀ {cm : CaseMap} {rep : Report}, Plain cm rep →
      ∀ fp ∈ fingerprints rep, ';' ∉ fp.toList := by
    intro cm rep h fp hfp
    obtain ⟨c, hc, rfl⟩ := List.mem_map.mp hfp
    obtain ⟨digest, hdigest⟩ := h.certificates c hc
    rw [hdigest]
    exact semicolon_not_mem
  exact terminated_inj (hplain h) (hplain h')

theorem names_plain : ∀ n ∈ algorithmNames, '=' ∉ n.toList ∧ '\n' ∉ n.toList := by
  decide

theorem statuses_plain : ∀ s ∈ statuses, '\n' ∉ s.toList := by decide

theorem toList_pqcLine (a : AlgorithmFinding) :
    (pqcLine a).toList = a.algorithm.toList ++ '=' :: a.pqcStatus.toList := by
  rw [pqcLine, String.toList_append, String.toList_append, List.append_assoc]
  rfl

/-- A line gives the name and the status back. -/
theorem pqcLine_inj (ha : PlainAlgorithm cm a) (hb : PlainAlgorithm cm' b) :
    pqcLine a = pqcLine b ↔ a.algorithm = b.algorithm ∧ a.pqcStatus = b.pqcStatus := by
  constructor
  · intro h
    replace h := congrArg String.toList h
    rw [toList_pqcLine, toList_pqcLine] at h
    have hparts := append_cons_inj (names_plain _ ha.name).1 (names_plain _ hb.name).1 h
    exact ⟨String.toList_injective hparts.1, String.toList_injective hparts.2⟩
  · rintro ⟨hname, hstatus⟩
    rw [pqcLine, pqcLine, hname, hstatus]

theorem join_eq_iff (h : Plain cm rep) (h' : Plain cm' rep') :
    join (pqcSet rep) = join (pqcSet rep') ↔ pqcSet rep = pqcSet rep' := by
  have hplain : ∀ {cm : CaseMap} {rep : Report}, Plain cm rep →
      ∀ l ∈ pqcSet rep, '\n' ∉ l.toList := by
    intro cm rep h l hl
    obtain ⟨a, ha, rfl⟩ := List.mem_map.mp (mem_sortStrings.mp hl)
    have halgorithm := h.algorithms a ha
    rw [toList_pqcLine, List.mem_append, List.mem_cons, not_or, not_or]
    refine ⟨(names_plain _ halgorithm.name).2, by decide, ?_⟩
    rw [halgorithm.status]
    exact statuses_plain _ (pqcStatus_mem _)
  exact terminated_inj (hplain h) (hplain h')

/-- The names and statuses of the algorithms. -/
def statusPairs (rep : Report) : List (String × String) :=
  rep.algorithms.map fun a => (a.algorithm, a.pqcStatus)

theorem pqcSet_eq (rep : Report) :
    pqcSet rep = sortStrings ((statusPairs rep).map fun p => p.1 ++ "=" ++ p.2) := by
  rw [statusPairs, List.map_map]
  rfl

theorem highestRisk_eq (rep : Report) : highestRisk rep = (statusPairs rep).foldl
    (fun best p => if riskRank (riskFromPQC p.2) > riskRank best then riskFromPQC p.2 else best)
    "INFO" := by
  rw [statusPairs, List.foldl_map]
  rfl

/-- Reports of the same lines list the same names with the same statuses. -/
theorem statusPairs_eq (h : Plain cm rep) (h' : Plain cm' rep')
    (hlines : ∀ l, l ∈ pqcSet rep ↔ l ∈ pqcSet rep') : statusPairs rep = statusPairs rep' := by
  have hnames : ∀ rep : Report,
      (statusPairs rep).map Prod.fst = rep.algorithms.map AlgorithmFinding.algorithm := fun rep => by
    rw [statusPairs, List.map_map]
    rfl
  have hsub : ∀ {cm cm' : CaseMap} {rep rep' : Report}, Plain cm rep → Plain cm' rep' →
      (∀ l, l ∈ pqcSet rep → l ∈ pqcSet rep') → ∀ p ∈ statusPairs rep, p ∈ statusPairs rep' := by
    intro cm cm' rep rep' h h' hlines p hp
    obtain ⟨a, ha, rfl⟩ := List.mem_map.mp hp
    obtain ⟨b, hb, hline⟩ := List.mem_map.mp (mem_sortStrings.mp
      (hlines (pqcLine a) (mem_sortStrings.mpr (List.mem_map_of_mem ha))))
    obtain ⟨hname, hstatus⟩ := (pqcLine_inj (h'.algorithms b hb) (h.algorithms a ha)).mp hline
    exact List.mem_map.mpr ⟨b, hb, by rw [hname, hstatus]⟩
  have hsorting : ∀ {cm : CaseMap} {rep : Report}, Plain cm rep →
      (statusPairs rep).Nodup ∧ Sorting Prod.fst (statusPairs rep) (statusPairs rep) := by
    intro cm rep h
    exact ⟨.of_map Prod.fst (hnames rep ▸ h.distinct), .refl _, List.pairwise_map.mpr h.sorted⟩
  have hperm : (statusPairs rep').Perm (statusPairs rep) :=
    (List.perm_ext_iff_of_nodup (hsorting h').1 (hsorting h).1).mpr fun p =>
      ⟨hsub h' h (fun l => (hlines l).mpr) p, hsub h h' (fun l => (hlines l).mp) p⟩
  refine (hsorting h).2.unique ((hsorting h').2.of_perm hperm) fun p hp q hq hpq => ?_
  exact List.inj_on_of_nodup_map (hnames rep ▸ h.distinct) hp hq hpq

end Texts

section Names

variable {x : Setup} {rep fin : Report} {left : Nat} {name : String} {data : List UInt8}
  {result : Except String Report} {results : List (ArchiveEntry × Except String Report)}
  {mark : String → String}

def noNames : Named := ⟨∅, ∅, ∅, ∅, ∅, ∅⟩

/-- The names of two reports together. -/
def both (a b : Named) : Named where
  libraries := a.libraries ∪ b.libraries
  algorithms := a.algorithms ∪ b.algorithms
  cryptoAPIs := a.cryptoAPIs ∪ b.cryptoAPIs
  protocols := a.protocols ∪ b.protocols
  rules := a.rules ∪ b.rules
  certificates := a.certificates ∪ b.certificates

/-- All that is named in an artifact, archive members by the levels that are left. -/
def namesIn (x : Setup) : Nat → String → List UInt8 → Named
  | 0, _, _ => noNames
  | left + 1, name, data =>
    match members x (detectFormat x.cm name data) name data with
    | some ms => ms.entries.foldl (fun n e => both n (namesIn x left e.name e.data)) noNames
    | none => (finalize x (analyzeImage x (newReport x name data) name data)).named

theorem namesIn_members {ms : Members}
    (h : members x (detectFormat x.cm name data) name data = some ms) :
    namesIn x (left + 1) name data =
      ms.entries.foldl (fun n e => both n (namesIn x left e.name e.data)) noNames := by
  simp only [namesIn, h]

theorem namesIn_image (h : members x (detectFormat x.cm name data) name data = none) :
    namesIn x (left + 1) name data =
      (finalize x (analyzeImage x (newReport x name data) name data)).named := by
  simp only [namesIn, h]

/-- A result by its names. -/
inductive NamedBy (n : Named) : Except String Report → Prop where
  | error (err : String) (h : n = noNames) : NamedBy n (.error err)
  | ok {rep : Report} (h : rep.named = n) : NamedBy n (.ok rep)

theorem named_finalized (h : Finalized x rep fin) : fin.named = (finalize x rep).named := by
  apply Named.ext
  · exact namesOf_perm h.libraries.perm
  · exact namesOf_perm h.algorithms.perm
  · exact namesOf_perm h.cryptoAPIs.perm
  · exact namesOf_perm h.protocols.perm
  · exact namesOf_perm h.rules.perm
  · exact namesOf_perm h.certificates.perm

/-- Finishing adds no name to a report that names the algorithms of its certificates. -/
theorem named_covered (h : Covered x rep) : (finalize x rep).named = rep.named := by
  rw [named_finalize]
  apply Named.ext
  case algorithms => exact Set.union_eq_self_of_subset_right h
  all_goals rfl

theorem both_noNames (n : Named) : both n noNames = n := by
  apply Named.ext <;> exact Set.union_empty _

variable (mark rep) in
theorem named_foldl (names : ArchiveEntry → Named)
    (hresults : ∀ e ∈ results, NamedBy (names e.1) e.2) :
    (results.foldl (mergeResult mark) rep).named =
      (results.map Prod.fst).foldl (fun n e => both n (names e)) rep.named := by
  induction results generalizing rep with
  | nil => rfl
  | cons e results ih =>
    obtain ⟨he, hrest⟩ := List.forall_mem_cons.mp hresults
    obtain ⟨entry, result⟩ := e
    have hstep : (mergeResult mark rep (entry, result)).named = both rep.named (names entry) := by
      cases he with
      | error err h =>
        rw [h, both_noNames]
        rfl
      | ok h =>
        rw [← h]
        exact named_mergeReport
    rw [List.foldl_cons, ih _ hrest, hstep]
    rfl

/-- What a report names is what is named in the artifact. -/
theorem named_analyzed (h : Analyzed x left name data result) :
    NamedBy (namesIn x left name data) result := by
  induction h with
  | deep name data => exact .error _ rfl
  | image hmembers hfin =>
    rw [namesIn_image hmembers]
    exact .ok (named_finalized hfin)
  | @archive left name data ms fin results hmembers hentries hresults hfin ih =>
    obtain ⟨hcovered, -⟩ := reports_members ms hentries
      (fun e he => reports_analyzed (hresults e he))
      (rfl : ({ newReport x name data with warnings := ms.warnings } : Report).certificates = [])
    have hnamed := named_foldl { newReport x name data with warnings := ms.warnings } ms.mark
      (fun e => namesIn x left e.name e.data) ih
    rw [namesIn_members hmembers, ← hentries]
    refine .ok ?_
    rw [named_finalized hfin, named_covered hcovered, hnamed, named_newReport]
    rfl

/-- The same with other options, at another time. -/
def withOptions (x : Setup) (tenantID deviceLifetime id : String) (now : Time) : Setup :=
  { x with tenantID, deviceLifetime, id, now }

variable (tenantID deviceLifetime id : String) (now : Time)

theorem named_withOptions (x : Setup) (name : String) (data : List UInt8) :
    (finalize (withOptions x tenantID deviceLifetime id now)
      (analyzeImage (withOptions x tenantID deviceLifetime id now)
        (newReport (withOptions x tenantID deviceLifetime id now) name data) name data)).named =
      (finalize x (analyzeImage x (newReport x name data) name data)).named := by
  have hcertificates : ∀ (ms : List Metadata) (y : Setup),
      namesOf fingerprint (ms.map (certificateFinding y)) =
        {n | n ∈ ms.map Metadata.fingerprintSHA256} := by
    intro ms y
    rw [namesOf, List.map_map]
    rfl
  have halgorithms : ∀ ms : List Metadata,
      (ms.map (certificateFinding (withOptions x tenantID deviceLifetime id now))).flatMap
        (certificateAlgorithms (withOptions x tenantID deviceLifetime id now)) =
      (ms.map (certificateFinding x)).flatMap (certificateAlgorithms x) := by
    intro ms
    rw [List.flatMap_map, List.flatMap_map]
    rfl
  rw [named_finalize, named_finalize]
  apply Named.ext
  case certificates => exact (hcertificates _ _).trans (hcertificates _ x).symm
  case algorithms =>
    exact congrArg₂ (· ∪ ·) rfl (congrArg (namesOf AlgorithmFinding.algorithm) (halgorithms _))
  all_goals rfl

/-- What is named does not depend on the options, the id of the report and the time. -/
theorem namesIn_withOptions (left : Nat) (name : String) (data : List UInt8) :
    namesIn (withOptions x tenantID deviceLifetime id now) left name data =
      namesIn x left name data := by
  induction left generalizing name data with
  | zero => rfl
  | succ left ih =>
    cases hmembers : members x (detectFormat x.cm name data) name data with
    | some ms =>
      have hmembers' : members (withOptions x tenantID deviceLifetime id now)
          (detectFormat (withOptions x tenantID deviceLifetime id now).cm name data) name data =
          some ms := hmembers
      rw [namesIn_members hmembers, namesIn_members hmembers']
      simp only [ih]
    | none =>
      have hmembers' : members (withOptions x tenantID deviceLifetime id now)
          (detectFormat (withOptions x tenantID deviceLifetime id now).cm name data) name data =
          none := hmembers
      rw [namesIn_image hmembers, namesIn_image hmembers', named_withOptions]

end Names

end RivicQ.Firmware.Compare
