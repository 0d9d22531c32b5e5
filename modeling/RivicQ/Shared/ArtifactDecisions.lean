import Mathlib.Data.List.Dedup
import Mathlib.Order.MinMax
import RivicQ.Cryptoscan.Detect

namespace RivicQ.Shared.ArtifactDecisions

open RivicQ.Cryptoscan.Detect

inductive Decision where
  | pass
  | warn
  | block
  deriving DecidableEq

def Decision.text : Decision → String
  | .pass => "PASS"
  | .warn => "WARN"
  | .block => "BLOCK"

def Decision.rank : Decision → Nat
  | .pass => 0
  | .warn => 1
  | .block => 2

theorem rank_injective : Function.Injective Decision.rank := by
  intro a b h
  cases a <;> cases b <;> first | rfl | exact nomatch h

instance : LinearOrder Decision := LinearOrder.lift' Decision.rank rank_injective

structure ArtifactDecision where
  decision : Decision
  blocked : List String
  warned : List String
  blockCount : Nat
  warnCount : Nat

def sortedKeys (keys : List String) : List String := keys.dedup.mergeSort fun a b => a ≤ b

def blockingStatuses : List String := ["migration_required", "broken_classical"]

/-- The names of the findings with one of some statuses. -/
def namesWith (statuses : List String) (algs : List AlgorithmFinding) : List String :=
  (algs.filter fun a => a.pqcStatus ∈ statuses).map AlgorithmFinding.algorithm

def artifactDecisionFrom (algs : List AlgorithmFinding) (vulnerableCerts : List String) :
    ArtifactDecision :=
  let blocked := sortedKeys (namesWith blockingStatuses algs ++ vulnerableCerts)
  let warned := sortedKeys (namesWith ["migration_recommended"] algs)
  { decision := if blocked.length > 0 then .block else if warned.length > 0 then .warn else .pass
    blocked, warned, blockCount := blocked.length, warnCount := warned.length }

variable {algs : List AlgorithmFinding} {certs : List String} {statuses : List String}

theorem length_sortedKeys_pos_iff {keys : List String} :
    (sortedKeys keys).length > 0 ↔ keys ≠ [] := by
  have hmem : ∀ k, k ∈ sortedKeys keys ↔ k ∈ keys := by
    simp only [sortedKeys, List.mem_mergeSort, List.mem_dedup, implies_true]
  rw [gt_iff_lt, List.length_pos_iff, ne_eq, ne_eq, List.eq_nil_iff_forall_not_mem,
    List.eq_nil_iff_forall_not_mem]
  simp only [hmem]

theorem namesWith_ne_nil_iff :
    namesWith statuses algs ≠ [] ↔ ∃ a ∈ algs, a.pqcStatus ∈ statuses := by
  simp only [namesWith, ne_eq, List.map_eq_nil_iff, List.filter_eq_nil_iff, decide_eq_true_eq,
    not_forall, not_not, exists_prop]

/-- The decision on a finding with a status. -/
def statusDecision (status : String) : Decision :=
  if status ∈ blockingStatuses then .block
  else if status = "migration_recommended" then .warn
  else .pass

theorem pass_le (b : Decision) : Decision.pass ≤ b := Nat.zero_le b.rank

theorem le_block (b : Decision) : b ≤ Decision.block := by
  cases b <;> decide

theorem statusDecision_eq_block_iff {status : String} :
    statusDecision status = .block ↔ status ∈ blockingStatuses := by
  unfold statusDecision
  split_ifs with hblock hwarn
  · exact iff_of_true rfl hblock
  · exact iff_of_false nofun hblock
  · exact iff_of_false nofun hblock

/-- What is blocked is one finding or one certificate. -/
theorem decision_eq_block_iff : (artifactDecisionFrom algs certs).decision = .block ↔
    (∃ a ∈ algs, statusDecision a.pqcStatus = .block) ∨ certs ≠ [] := by
  have hblocked : (sortedKeys (namesWith blockingStatuses algs ++ certs)).length > 0 ↔
      (∃ a ∈ algs, statusDecision a.pqcStatus = .block) ∨ certs ≠ [] := by
    rw [length_sortedKeys_pos_iff, ne_eq, List.append_eq_nil_iff, not_and_or, ← ne_eq,
      namesWith_ne_nil_iff]
    simp only [statusDecision_eq_block_iff, ne_eq]
  rw [← hblocked, artifactDecisionFrom]
  split_ifs with hblock hwarn
  · exact iff_of_true rfl hblock
  · exact iff_of_false nofun hblock
  · exact iff_of_false nofun hblock

theorem statusDecision_eq_pass_iff {status : String} : statusDecision status = .pass ↔
    status ∉ blockingStatuses ∧ status ≠ "migration_recommended" := by
  unfold statusDecision
  split_ifs with hblock hwarn
  · exact iff_of_false nofun fun h => h.1 hblock
  · exact iff_of_false nofun fun h => h.2 hwarn
  · exact iff_of_true rfl ⟨hblock, hwarn⟩

theorem decision_eq_pass_iff : (artifactDecisionFrom algs certs).decision = .pass ↔
    (∀ a ∈ algs, statusDecision a.pqcStatus = .pass) ∧ certs = [] := by
  have hblocked := @decision_eq_block_iff algs certs
  have hwarned : (sortedKeys (namesWith ["migration_recommended"] algs)).length > 0 ↔
      ∃ a ∈ algs, a.pqcStatus = "migration_recommended" := by
    rw [length_sortedKeys_pos_iff, namesWith_ne_nil_iff]
    simp only [List.mem_singleton]
  simp only [statusDecision_eq_pass_iff, statusDecision_eq_block_iff] at hblocked ⊢
  rw [artifactDecisionFrom] at hblocked ⊢
  dsimp only at hblocked ⊢
  split_ifs at hblocked ⊢ with hblock hwarn
  · refine iff_of_false nofun fun h => ?_
    obtain ⟨a, ha, hstatus⟩ | hcerts := hblocked.mp rfl
    · exact (h.1 a ha).1 hstatus
    · exact hcerts h.2
  · obtain ⟨a, ha, hstatus⟩ := hwarned.mp hwarn
    exact iff_of_false nofun fun h => (h.1 a ha).2 hstatus
  · refine iff_of_true rfl ⟨fun a ha => ⟨fun hstatus => ?_, fun hstatus => ?_⟩, ?_⟩
    · exact nomatch hblocked.mpr (.inl ⟨a, ha, hstatus⟩)
    · exact hwarn (hwarned.mpr ⟨a, ha, hstatus⟩)
    · by_contra hcerts
      exact nomatch hblocked.mpr (.inr hcerts)

theorem le_pass_iff {d : Decision} : d ≤ .pass ↔ d = .pass := by cases d <;> decide

theorem le_warn_iff {d : Decision} : d ≤ .warn ↔ d ≠ .block := by cases d <;> decide

/-- A bound of the decision is one of the decisions on its elements. -/
theorem decision_le_iff {b : Decision} : (artifactDecisionFrom algs certs).decision ≤ b ↔
    (∀ a ∈ algs, statusDecision a.pqcStatus ≤ b) ∧ (certs ≠ [] → .block ≤ b) := by
  cases b with
  | pass =>
    simp only [le_pass_iff, decision_eq_pass_iff, reduceCtorEq, imp_false, not_not]
  | warn =>
    rw [le_warn_iff, ne_eq, decision_eq_block_iff]
    simp only [le_warn_iff, not_or, not_exists, not_and, ne_eq, not_not, not_true_eq_false,
      imp_false]
  | block => exact iff_of_true (le_block _) ⟨fun a _ => le_block _, fun _ => le_rfl⟩

theorem foldr_max_le_iff {ds : List Decision} {b : Decision} :
    ds.foldr max .pass ≤ b ↔ ∀ d ∈ ds, d ≤ b := by
  induction ds with
  | nil => exact iff_of_true (pass_le b) nofun
  | cons d ds ih => rw [List.foldr_cons, max_le_iff, ih, List.forall_mem_cons]

theorem decision_finding (a : AlgorithmFinding) :
    (artifactDecisionFrom [a] []).decision = statusDecision a.pqcStatus := by
  refine eq_of_forall_ge_iff fun b => ?_
  rw [decision_le_iff, List.forall_mem_singleton]
  exact and_iff_left fun h => absurd rfl h

theorem decision_certificate (c : String) : (artifactDecisionFrom [] [c]).decision = .block :=
  decision_eq_block_iff.mpr (.inr nofun)

/-- The decision is the greatest one on its elements. -/
theorem decision_eq_max (algs : List AlgorithmFinding) (certs : List String) :
    (artifactDecisionFrom algs certs).decision =
      (algs.map (fun a => (artifactDecisionFrom [a] []).decision) ++
        certs.map fun c => (artifactDecisionFrom [] [c]).decision).foldr max .pass := by
  refine eq_of_forall_ge_iff fun b => ?_
  simp only [foldr_max_le_iff, @decision_le_iff algs certs, decision_finding,
    decision_certificate, List.mem_append, List.mem_map]
  constructor
  · rintro ⟨halgs, hcerts⟩ d (⟨a, ha, rfl⟩ | ⟨c, hc, rfl⟩)
    · exact halgs a ha
    · exact hcerts (List.ne_nil_of_mem hc)
  · refine fun h => ⟨fun a ha => h _ (.inl ⟨a, ha, rfl⟩), fun hcerts => ?_⟩
    obtain ⟨c, hc⟩ := List.exists_mem_of_ne_nil certs hcerts
    exact h _ (.inr ⟨c, hc, rfl⟩)

/-- Neither the order of the elements nor how often they come changes the decision. -/
theorem decision_congr {algs' : List AlgorithmFinding} {certs' : List String}
    (halgs : ∀ a, a ∈ algs ↔ a ∈ algs') (hcerts : ∀ c, c ∈ certs ↔ c ∈ certs') :
    (artifactDecisionFrom algs certs).decision = (artifactDecisionFrom algs' certs').decision := by
  refine eq_of_forall_ge_iff fun b => ?_
  have hnil : certs ≠ [] ↔ certs' ≠ [] := by
    simp only [ne_eq, List.eq_nil_iff_forall_not_mem, hcerts]
  simp only [decision_le_iff, halgs, hnil]

end RivicQ.Shared.ArtifactDecisions
