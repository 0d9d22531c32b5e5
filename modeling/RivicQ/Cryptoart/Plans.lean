import RivicQ.Cryptoart.Graphs
import RivicQ.Cryptoscan.Detect

namespace RivicQ.Cryptoart.Plans

open RivicQ.Lib.GoStrings RivicQ.Cryptoart.Graphs RivicQ.Cryptoscan.Detect

/-- A target of a migration. -/
structure AffectedAsset where
  asset : String
  algorithm : String
  quantumRisk : String
  pqcStatus : String
  replacement : String
  phase : String
  priority : String

structure Recommendation where
  algorithm : String
  replacement : String
  phase : String
  rationale : String

/-- A migration plan, which is `ready` or `partial`, and of priority `P0`, `P1` or `P2`. -/
structure PQCPlan where
  readiness : String
  priority : String
  affected : List AffectedAsset
  recommendations : List Recommendation
  note : String

def phaseFor : String → String
  | "migration_required" => "phase-1"
  | "migration_recommended" => "phase-2"
  | "broken_classical" => "phase-0"
  | _ => "phase-3"

def priorityFor : String → String
  | "migration_required" => "P1"
  | "broken_classical" => "P0"
  | _ => "P2"

def lifetimeRank : String → Nat
  | "10+ years" | "10 years+" => 4
  | "5-10 years" => 3
  | "2-5 years" => 2
  | "<2 years" => 1
  | _ => 0

/-- A plan passes over the algorithm. -/
def withstands (a : AlgorithmFinding) : Bool :=
  a.pqcStatus = "quantum_safe" || a.pqcStatus = "quantum_resistant"

def affectedAsset (assetName : String) (a : AlgorithmFinding) : AffectedAsset where
  asset := assetName
  algorithm := a.algorithm
  quantumRisk := a.quantumRisk
  pqcStatus := a.pqcStatus
  replacement := a.replacement
  phase := phaseFor a.pqcStatus
  priority := priorityFor a.pqcStatus

def recommendation (a : AlgorithmFinding) : Option Recommendation :=
  if a.replacement ≠ "" ∧ a.replacement ≠ "-" then
    some { algorithm := a.algorithm, replacement := a.replacement, phase := phaseFor a.pqcStatus
           rationale := a.migration }
  else none

def buildPQCPlan (assetName deviceLifetime : String) (algs : List AlgorithmFinding) : PQCPlan :=
  let vulnerable := algs.filter fun a => !withstands a
  let affected := vulnerable.map (affectedAsset assetName)
  let recommendations := vulnerable.filterMap recommendation
  if affected.length = 0 then
    { readiness := "ready", priority := "P2", affected, recommendations
      note := "No quantum-vulnerable public-key cryptography detected in this artifact." }
  else
    let qHigh := affected.any fun a => a.quantumRisk = "HIGH"
    { readiness := "partial"
      priority := if qHigh ∧ lifetimeRank deviceLifetime ≥ 3 then "P0" else "P1"
      affected, recommendations
      note := "Derived from static artifact evidence and the Qiskit-aligned taxonomy. " ++
        "Not a NIST CAVP validation." }

/-- The most severe risk level of an inventory; a level that is not known counts as the least. -/
def highestRisk (cm : CaseMap) (items : List BOMItem) : String :=
  items.foldl
    (fun best it =>
      if riskOrder (toUpper cm it.riskLevel) > riskOrder best then toUpper cm it.riskLevel
      else best) "INFO"

section Plans

variable {assetName deviceLifetime : String} {algs : List AlgorithmFinding} {x : AffectedAsset}

theorem mem_targets : x ∈ (algs.filter fun a => !withstands a).map (affectedAsset assetName) ↔
    ∃ a ∈ algs, withstands a = false ∧ affectedAsset assetName a = x := by
  simp only [List.mem_map, List.mem_filter, Bool.not_eq_true', and_assoc]

theorem mem_affected : x ∈ (buildPQCPlan assetName deviceLifetime algs).affected ↔
    ∃ a ∈ algs, withstands a = false ∧ affectedAsset assetName a = x := by
  have haffected : (buildPQCPlan assetName deviceLifetime algs).affected =
      (algs.filter fun a => !withstands a).map (affectedAsset assetName) := by
    simp only [buildPQCPlan]
    split_ifs <;> rfl
  rw [haffected, mem_targets]

/-- A plan that some algorithm needs is urgent if one of them is at high risk in a device that
lives long. -/
theorem buildPQCPlan_of_vulnerable (assetName deviceLifetime : String)
    (h : ∃ a ∈ algs, withstands a = false) :
    (buildPQCPlan assetName deviceLifetime algs).readiness = "partial" ∧
      (buildPQCPlan assetName deviceLifetime algs).priority =
        if (∃ a ∈ algs, withstands a = false ∧ a.quantumRisk = "HIGH") ∧
          lifetimeRank deviceLifetime ≥ 3 then "P0" else "P1" := by
  obtain ⟨a, ha, hvulnerable⟩ := h
  have hlength : ((algs.filter fun a => !withstands a).map
      (affectedAsset assetName)).length ≠ 0 :=
    (List.length_pos_of_mem (mem_targets.mpr ⟨a, ha, hvulnerable, rfl⟩)).ne'
  have hhigh : (((algs.filter fun a => !withstands a).map (affectedAsset assetName)).any
      fun a => a.quantumRisk = "HIGH") = true ↔
        ∃ a ∈ algs, withstands a = false ∧ a.quantumRisk = "HIGH" := by
    rw [List.any_eq_true]
    constructor
    · rintro ⟨x, hx, hrisk⟩
      obtain ⟨b, hb, hwithstands, rfl⟩ := mem_targets.mp hx
      exact ⟨b, hb, hwithstands, of_decide_eq_true hrisk⟩
    · rintro ⟨b, hb, hwithstands, hrisk⟩
      exact ⟨_, mem_targets.mpr ⟨b, hb, hwithstands, rfl⟩, decide_eq_true hrisk⟩
  unfold buildPQCPlan
  rw [if_neg hlength]
  exact ⟨rfl, if_congr (and_congr_left' hhigh) rfl rfl⟩

theorem buildPQCPlan_of_withstands (assetName deviceLifetime : String)
    (h : ¬ ∃ a ∈ algs, withstands a = false) :
    (buildPQCPlan assetName deviceLifetime algs).readiness = "ready" ∧
      (buildPQCPlan assetName deviceLifetime algs).priority = "P2" ∧
      (buildPQCPlan assetName deviceLifetime algs).affected = [] := by
  have hnil : (algs.filter fun a => !withstands a) = [] := by
    rw [List.filter_eq_nil_iff]
    intro a ha hvulnerable
    exact h ⟨a, ha, (Bool.not_eq_true' _).mp hvulnerable⟩
  unfold buildPQCPlan
  rw [hnil]
  exact ⟨rfl, rfl, rfl⟩

end Plans

end RivicQ.Cryptoart.Plans
