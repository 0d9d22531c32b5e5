import RivicQ.Cryptoart.Plans

namespace RivicQ.Properties.Priorities

open RivicQ.Lib.GoStrings RivicQ.Cryptoscan.Detect RivicQ.Cryptoart.Plans

/-- The less, the more urgent. -/
def urgency : String → Nat
  | "P0" => 0
  | "P1" => 1
  | _ => 2

/-- The more, the better. -/
def readinessRank : String → Nat
  | "ready" => 2
  | "partial" => 1
  | _ => 0

/-- A plan is as urgent as each of its assets. -/
def Covering (plan : PQCPlan) : Prop := ∀ a ∈ plan.affected, urgency plan.priority ≤ urgency a.priority

/-- A plan is as urgent as another one, and no better. -/
def Bounded (plan plan' : PQCPlan) : Prop :=
  urgency plan'.priority ≤ urgency plan.priority ∧
    readinessRank plan'.readiness ≤ readinessRank plan.readiness

variable {assetName deviceLifetime : String} {algs : List AlgorithmFinding} {a : AlgorithmFinding}

theorem withstands_of_broken (h : a.pqcStatus = "broken_classical") : withstands a = false := by
  simp [withstands, h]

theorem urgency_priorityFor {status : String} (h : status ≠ "broken_classical") :
    1 ≤ urgency (priorityFor status) := by
  unfold priorityFor
  split
  · decide
  · exact absurd rfl h
  · decide

/-- Whatever is added to the algorithms, the plan stays as urgent, and becomes no better. -/
theorem bounded_of_subset {algs' : List AlgorithmFinding} (h : algs ⊆ algs') :
    Bounded (buildPQCPlan assetName deviceLifetime algs)
      (buildPQCPlan assetName deviceLifetime algs') := by
  unfold Bounded
  by_cases hvulnerable : ∃ a ∈ algs, withstands a = false
  · have hvulnerable' : ∃ a ∈ algs', withstands a = false :=
      hvulnerable.imp fun a ha => ⟨h ha.1, ha.2⟩
    obtain ⟨hready, hpriority⟩ := buildPQCPlan_of_vulnerable assetName deviceLifetime
      hvulnerable
    obtain ⟨hready', hpriority'⟩ := buildPQCPlan_of_vulnerable assetName deviceLifetime
      hvulnerable'
    rw [hready, hready', hpriority, hpriority']
    refine ⟨?_, le_rfl⟩
    split_ifs with hnew hold hold
    · exact le_rfl
    · decide
    · exact absurd ⟨hold.1.imp fun a ha => ⟨h ha.1, ha.2⟩, hold.2⟩ hnew
    · exact le_rfl
  · obtain ⟨hready, hpriority, -⟩ := buildPQCPlan_of_withstands assetName deviceLifetime
      hvulnerable
    rw [hready, hpriority]
    by_cases hvulnerable' : ∃ a ∈ algs', withstands a = false
    · obtain ⟨hready', hpriority'⟩ := buildPQCPlan_of_vulnerable assetName deviceLifetime
        hvulnerable'
      rw [hready', hpriority']
      split_ifs <;> decide
    · obtain ⟨hready', hpriority', -⟩ := buildPQCPlan_of_withstands assetName deviceLifetime
        hvulnerable'
      rw [hready', hpriority']
      exact ⟨le_rfl, le_rfl⟩

theorem covering_iff : Covering (buildPQCPlan assetName deviceLifetime algs) ↔
    ∀ a ∈ algs, a.pqcStatus = "broken_classical" →
      (∃ b ∈ algs, withstands b = false ∧ b.quantumRisk = "HIGH") ∧
        lifetimeRank deviceLifetime ≥ 3 := by
  have hassets : Covering (buildPQCPlan assetName deviceLifetime algs) ↔
      ∀ a ∈ algs, withstands a = false →
        urgency (buildPQCPlan assetName deviceLifetime algs).priority ≤
          urgency (priorityFor a.pqcStatus) := by
    constructor
    · intro h a ha hvulnerable
      exact h _ (mem_affected.mpr ⟨a, ha, hvulnerable, rfl⟩)
    · intro h x hx
      obtain ⟨a, ha, hvulnerable, rfl⟩ := mem_affected.mp hx
      exact h a ha hvulnerable
  rw [hassets]
  constructor
  · intro hcovering a ha hbroken
    have hvulnerable : withstands a = false := withstands_of_broken hbroken
    have hle := hcovering a ha hvulnerable
    rw [(buildPQCPlan_of_vulnerable _ _ ⟨a, ha, hvulnerable⟩).2, hbroken] at hle
    by_contra hlow
    rw [if_neg hlow] at hle
    exact absurd hle (by decide)
  · intro hcond a ha hvulnerable
    rw [(buildPQCPlan_of_vulnerable _ _ ⟨a, ha, hvulnerable⟩).2]
    by_cases hbroken : a.pqcStatus = "broken_classical"
    · rw [if_pos (hcond a ha hbroken)]
      exact Nat.zero_le _
    · have hle := urgency_priorityFor hbroken
      split_ifs
      · exact Nat.zero_le _
      · exact hle

/-- A plan is as urgent as its assets, and what is added makes it no less urgent and no better, if
no algorithm is broken already or else one is at high risk in a device that lives long. -/
theorem priorities_iff (assetName deviceLifetime : String) (algs : List AlgorithmFinding) :
    (Covering (buildPQCPlan assetName deviceLifetime algs) ∧
      ∀ before after f, algs = before ++ after →
        Bounded (buildPQCPlan assetName deviceLifetime algs)
          (buildPQCPlan assetName deviceLifetime (before ++ f :: after))) ↔
    ∀ a ∈ algs, a.pqcStatus = "broken_classical" →
      (∃ b ∈ algs, withstands b = false ∧ b.quantumRisk = "HIGH") ∧
        lifetimeRank deviceLifetime ≥ 3 := by
  rw [covering_iff]
  refine and_iff_left fun before after f hsplit => bounded_of_subset ?_
  rw [hsplit]
  exact List.append_subset.mpr ⟨List.subset_append_left _ _,
    fun a ha => List.mem_append_right _ (List.mem_cons_of_mem _ ha)⟩

/-- What a reference to MD5 makes. -/
def md5 : AlgorithmFinding := algorithm asciiCase "MD5" "string-evidence: MD5"

theorem md5_broken : md5.pqcStatus = "broken_classical" := by decide

/-- Nothing in a plan is as urgent as MD5, but the plan is not. -/
theorem broken_outranks_plan : ¬ ∀ (assetName deviceLifetime : String)
    (algs : List AlgorithmFinding),
    Covering (buildPQCPlan assetName deviceLifetime algs) ∧
      ∀ before after f, algs = before ++ after →
        Bounded (buildPQCPlan assetName deviceLifetime algs)
          (buildPQCPlan assetName deviceLifetime (before ++ f :: after)) := by
  intro h
  have hcond := covering_iff.mp (h "fw.bin" "" [md5]).1 md5 List.mem_cons_self md5_broken
  exact absurd hcond.2 (by decide)

end RivicQ.Properties.Priorities
