import Mathlib.Tactic.Linarith
import Mathlib.Tactic.Positivity
import Mathlib.Tactic.FieldSimp
import RivicQ.Quantum.Migration

namespace RivicQ.Properties.Migration

open RivicQ.Quantum.Migration

/-- The number of assets of a risk. -/
def count (risk : QuantumRiskLevel) (assets : List CryptoAsset) : Nat :=
  assets.countP fun a => assessCryptoAsset a = risk

/-- An asset of critical or high risk. -/
def AtRisk (a : CryptoAsset) : Prop :=
  assessCryptoAsset a = .critical ∨ assessCryptoAsset a = .high

instance (a : CryptoAsset) : Decidable (AtRisk a) := inferInstanceAs (Decidable (_ ∨ _))

/-- The number of assets of neither critical nor high risk. -/
def unharmed (assets : List CryptoAsset) : Nat := assets.countP fun a => ¬ AtRisk a

/-- Every flag of a report that is set is set in another one. -/
structure Flagged (r r' : QuantumMigrationReport) : Prop where
  bsi : r.bsiCompliant = true → r'.bsiCompliant = true
  dora : r.doraCompliant = true → r'.doraCompliant = true
  eidas : r.eidasReady = true → r'.eidasReady = true

/-- The score is the percentage of the assets that are not at risk, and no flag is lost when an
asset becomes safe. -/
structure Sound (tenantID : String) (assets : List CryptoAsset) : Prop where
  nonneg : 0 ≤ (generateMigrationReport tenantID assets).readinessScore
  le : (generateMigrationReport tenantID assets).readinessScore ≤ 100
  fraction : (generateMigrationReport tenantID assets).readinessScore =
    100 * (unharmed assets / assets.length)
  monotone : ∀ before a after a', assets = before ++ a :: after → AtRisk a →
    assessCryptoAsset a' = .safe →
    Flagged (generateMigrationReport tenantID assets)
      (generateMigrationReport tenantID (before ++ a' :: after))

variable {tenantID : String} {r : QuantumMigrationReport} {assets before after : List CryptoAsset}
  {a a' : CryptoAsset}

theorem counts_foldl : (assets.foldl assessOne r).totalAssets = r.totalAssets ∧
    (assets.foldl assessOne r).criticalAssets = r.criticalAssets + count .critical assets ∧
    (assets.foldl assessOne r).highRiskAssets = r.highRiskAssets + count .high assets ∧
    (assets.foldl assessOne r).safeAssets = r.safeAssets + count .safe assets := by
  induction assets generalizing r with
  | nil => exact ⟨rfl, rfl, rfl, rfl⟩
  | cons a assets ih =>
    obtain ⟨htotal, hcritical, hhigh, hsafe⟩ := ih (r := assessOne r a)
    simp only [count] at hcritical hhigh hsafe ⊢
    rw [List.foldl_cons, htotal, hcritical, hhigh, hsafe]
    simp only [List.countP_cons, assessOne]
    cases assessCryptoAsset a <;> simp <;> omega

theorem counts_add (assets : List CryptoAsset) :
    count .critical assets + count .high assets + unharmed assets = assets.length := by
  induction assets with
  | nil => rfl
  | cons a assets ih =>
    simp only [count, unharmed] at ih ⊢
    rw [List.countP_cons, List.countP_cons, List.countP_cons, List.length_cons, ← ih]
    cases hrisk : assessCryptoAsset a <;> simp [AtRisk, hrisk] <;> omega

/-- The safe assets are counted twice. -/
theorem score_eq : (generateMigrationReport tenantID assets).readinessScore =
    (count .safe assets + unharmed assets) / assets.length * 100 := by
  obtain ⟨htotal, hcritical, hhigh, hsafe⟩ :=
    @counts_foldl { tenantID, totalAssets := assets.length } assets
  have hadd := counts_add assets
  have hrest : (assets.length : ℤ) - count .critical assets - count .high assets =
      unharmed assets := by omega
  simp only [generateMigrationReport, score, htotal, hcritical, hhigh, hsafe, Nat.zero_add]
  split_ifs with hlength
  · rw [hrest]
    push_cast
    rfl
  · have hnil : assets.length = 0 := by omega
    rw [hnil, Nat.cast_zero, div_zero, zero_mul]

theorem criticalAssets_eq : (generateMigrationReport tenantID assets).criticalAssets =
    count .critical assets := by
  obtain ⟨-, hcritical, -⟩ :=
    @counts_foldl { tenantID, totalAssets := assets.length } assets
  exact hcritical.trans (Nat.zero_add _)

/-- When an asset at risk becomes safe, it counts twice instead of not at all. -/
theorem counts_replace (ha : AtRisk a) (ha' : assessCryptoAsset a' = .safe) :
    count .critical (before ++ a' :: after) ≤ count .critical (before ++ a :: after) ∧
      count .safe (before ++ a :: after) ≤ count .safe (before ++ a' :: after) ∧
      unharmed (before ++ a :: after) ≤ unharmed (before ++ a' :: after) := by
  have hunharmed : ¬ AtRisk a' := by
    rw [AtRisk, ha']
    decide
  have hsafe : assessCryptoAsset a ≠ .safe := by
    obtain ha | ha := ha <;> rw [ha] <;> decide
  simp only [count, unharmed, List.countP_append, List.countP_cons, ha', ha, hunharmed, hsafe]
  refine ⟨?_, ?_, ?_⟩ <;> simp

theorem flagged_replace (ha : AtRisk a) (ha' : assessCryptoAsset a' = .safe) :
    Flagged (generateMigrationReport tenantID (before ++ a :: after))
      (generateMigrationReport tenantID (before ++ a' :: after)) := by
  obtain ⟨hcritical, hsafe, hunharmed⟩ := @counts_replace before after _ _ ha ha'
  have hscore : (generateMigrationReport tenantID (before ++ a :: after)).readinessScore ≤
      (generateMigrationReport tenantID (before ++ a' :: after)).readinessScore := by
    rw [score_eq, score_eq]
    have hlength : (before ++ a' :: after).length = (before ++ a :: after).length := by simp
    have hsafe' : (count .safe (before ++ a :: after) : ℚ) ≤
        count .safe (before ++ a' :: after) := by exact_mod_cast hsafe
    have hunharmed' : (unharmed (before ++ a :: after) : ℚ) ≤
        unharmed (before ++ a' :: after) := by exact_mod_cast hunharmed
    rw [hlength]
    gcongr
  have hzero : (generateMigrationReport tenantID (before ++ a :: after)).criticalAssets = 0 →
      (generateMigrationReport tenantID (before ++ a' :: after)).criticalAssets = 0 := by
    rw [criticalAssets_eq, criticalAssets_eq]
    omega
  have hbsi : ∀ assets, (generateMigrationReport tenantID assets).bsiCompliant = true ↔
      (generateMigrationReport tenantID assets).criticalAssets = 0 ∧
        80 ≤ (generateMigrationReport tenantID assets).readinessScore := by
    intro assets
    exact (Bool.and_eq_true _ _).to_iff.trans
      (and_congr decide_eq_true_iff decide_eq_true_iff)
  have hdora : ∀ assets, (generateMigrationReport tenantID assets).doraCompliant = true ↔
      (generateMigrationReport tenantID assets).criticalAssets = 0 := fun _ => decide_eq_true_iff
  have heidas : ∀ assets, (generateMigrationReport tenantID assets).eidasReady = true ↔
      90 ≤ (generateMigrationReport tenantID assets).readinessScore := fun _ => decide_eq_true_iff
  constructor
  · rw [hbsi, hbsi]
    rintro ⟨hnone, h⟩
    exact ⟨hzero hnone, h.trans hscore⟩
  · rw [hdora, hdora]
    exact hzero
  · rw [heidas, heidas]
    exact fun h => h.trans hscore

/-- The report is sound if and only if no asset is safe. -/
theorem report_sound_iff (tenantID : String) (assets : List CryptoAsset) :
    Sound tenantID assets ↔ ∀ a ∈ assets, assessCryptoAsset a ≠ .safe := by
  have hnone : (∀ a ∈ assets, assessCryptoAsset a ≠ .safe) ↔ count .safe assets = 0 := by
    simp only [count, List.countP_eq_zero, decide_eq_true_eq, ne_eq]
  have hlength : (unharmed assets : ℚ) ≤ assets.length := by
    exact_mod_cast (counts_add assets ▸ Nat.le_add_left _ _ : unharmed assets ≤ assets.length)
  rw [hnone]
  constructor
  · intro h
    have hscore := score_eq.symm.trans h.fraction
    obtain hzero | hpos := Nat.eq_zero_or_pos assets.length
    · exact Nat.le_zero.mp (hzero ▸ List.countP_le_length)
    · have hne : (assets.length : ℚ) ≠ 0 := by positivity
      field_simp at hscore
      have hsafe : (count .safe assets : ℚ) = 0 := by linarith
      exact_mod_cast hsafe
  · intro h
    have hscore : (generateMigrationReport tenantID assets).readinessScore =
        100 * (unharmed assets / assets.length) := by
      rw [score_eq, h, Nat.cast_zero, zero_add, mul_comm]
    refine ⟨?_, ?_, hscore, ?_⟩
    · rw [hscore]
      positivity
    · rw [hscore]
      have hone : (unharmed assets : ℚ) / assets.length ≤ 1 := div_le_one_of_le₀ hlength (by positivity)
      linarith
    · rintro before a after a' rfl ha ha'
      exact flagged_replace ha ha'

/-- One safe asset has the score 200. -/
theorem safe_not_sound : ¬ ∀ tenantID assets, Sound tenantID assets := by
  intro h
  have hle := (h "" [{ algorithm := "AES-256" }]).le
  have hsafe : count .safe [{ algorithm := "AES-256" }] = 1 := by decide
  have hunharmed : unharmed [{ algorithm := "AES-256" }] = 1 := by decide
  rw [score_eq, hsafe, hunharmed] at hle
  norm_num at hle

end RivicQ.Properties.Migration
