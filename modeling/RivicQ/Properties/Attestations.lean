import RivicQ.Quantum.Attestation
import RivicQ.Quantum.QiskitProfile

namespace RivicQ.Properties.Attestations

open RivicQ.Lib.GoStrings RivicQ.Quantum.QiskitProfile RivicQ.Quantum.Attestation

variable (cm : CaseMap)

/-- How many rows of the table of vulnerable algorithms are found in the names of a list. -/
def vulnerableRows (algorithms : List String) : Nat :=
  (algorithms.map fun a => (matching cm knownVulnerable a).length).sum

def safeRows (algorithms : List String) : Nat :=
  (algorithms.map fun a => (matching cm knownSafe a).length).sum

/-- An attestation that a request is given says that it is quantum-safe. -/
def SaidSafe (result : Except String AttestationResult) : Prop :=
  ∃ r, result = .ok r ∧ r.quantumSafe = true

/-- A report has the level of what is safe. -/
def LevelSafe (result : Except String QuantumRiskReport) : Prop :=
  ∃ r, result = .ok r ∧ r.riskLevel = "SAFE"

/-- The attestation of a report claims compliance with one of the three regulations. -/
def ClaimsCompliance (assetID : String) (draws : Draws)
    (result : Except String QuantumRiskReport) : Prop :=
  ∃ r att, result = .ok r ∧ generateAttestationReport assetID (some r) draws = .ok att ∧
    (att.nistCompliant = true ∨ att.bsiCompliant = true ∨ att.doraCompliant = true)

variable {cm} {assetID assetName : String} {algorithms : List String} {req : AttestationRequest}
  {draws : Draws}

theorem length_flatMap_matching (table : List PQCAlgorithmInfo) :
    (algorithms.flatMap (matching cm table)).length =
      (algorithms.map fun a => (matching cm table a).length).sum := List.length_flatMap

theorem assessAsset_empty : assessAsset cm "" assetName algorithms =
    .error "asset ID must not be empty" := rfl

variable (cm assetName algorithms) in
theorem assessAsset_ok (h : assetID ≠ "") : ∃ r, assessAsset cm assetID assetName algorithms = .ok r ∧
    r.riskScore = riskScore (vulnerableRows cm algorithms) (safeRows cm algorithms) ∧
    r.riskLevel = (riskLevel r.riskScore).1 := by
  refine ⟨_, if_neg h, ?_, rfl⟩
  simp only [length_flatMap_matching]
  rfl

theorem levelSafe_iff : LevelSafe (assessAsset cm assetID assetName algorithms) ↔
    ¬ (assetID = "" ∨ safeRows cm algorithms + 1 ≤ 99 * vulnerableRows cm algorithms) := by
  by_cases hid : assetID = ""
  · rw [hid, assessAsset_empty]
    exact iff_of_false (fun ⟨r, hr, _⟩ => nomatch hr) (not_not.mpr (.inl rfl))
  obtain ⟨r, hr, hscore, hlevel⟩ := assessAsset_ok cm assetName algorithms hid
  have hzero : r.riskScore = 0 ↔
      ¬ safeRows cm algorithms + 1 ≤ 99 * vulnerableRows cm algorithms := by
    have hlt := riskScore_lt_iff (v := vulnerableRows cm algorithms) (s := safeRows cm algorithms) 1
      Nat.one_pos
    rw [← hscore] at hlt
    omega
  rw [LevelSafe, hr, not_or, ← hzero, ← riskLevel_safe_iff, ← hlevel]
  constructor
  · rintro ⟨_, ⟨⟩, hsafe⟩
    exact ⟨hid, hsafe⟩
  · exact fun h => ⟨r, rfl, h.2⟩

/-- An attestation of a report of one algorithm says that it is safe unless enough rows of the
table of vulnerable algorithms are found in it. -/
theorem attested_safe_iff (provider : String) {r : QuantumRiskReport}
    (hscore : r.riskScore =
      riskScore (vulnerableRows cm [req.algorithm]) (safeRows cm [req.algorithm])) :
    (attested provider req r).quantumSafe = true ↔
      ¬ 3 * (safeRows cm [req.algorithm] + 1) ≤ 7 * vulnerableRows cm [req.algorithm] := by
  rw [attested_quantumSafe_iff, hscore, riskScore_lt_iff 30 (by omega)]
  omega

theorem saidSafe_engine_iff : SaidSafe (engineAttest cm req) ↔ ¬ (req.assetID = "" ∨
    3 * (safeRows cm [req.algorithm] + 1) ≤ 7 * vulnerableRows cm [req.algorithm]) := by
  rw [engineAttest]
  by_cases hid : req.assetID = ""
  · rw [hid, assessAsset_empty]
    exact iff_of_false (fun ⟨r, hr, _⟩ => nomatch hr) (not_not.mpr (.inl rfl))
  obtain ⟨r, hr, hscore, -⟩ := assessAsset_ok cm req.assetID [req.algorithm] hid
  rw [hr, not_or, ← attested_safe_iff "oqs-engine" hscore]
  constructor
  · rintro ⟨_, ⟨⟩, hsafe⟩
    exact ⟨hid, hsafe⟩
  · exact fun h => ⟨_, rfl, h.2⟩

theorem saidSafe_local_iff (hname : req.algorithm ≠ "") :
    SaidSafe (localAttest cm req) ↔ SaidSafe (engineAttest cm req) := by
  rw [localAttest, engineAttest]
  by_cases hid : req.assetID = ""
  · rw [if_pos hid, hid, assessAsset_empty]
    exact iff_of_false (fun ⟨r, hr, _⟩ => nomatch hr) fun ⟨r, hr, _⟩ => nomatch hr
  obtain ⟨r, hr, -⟩ := assessAsset_ok cm req.assetID [req.algorithm] hid
  rw [if_neg hid, if_neg hname, hr]
  -- The two results differ in the name of the provider only.
  constructor
  · rintro ⟨_, ⟨⟩, hsafe⟩
    exact ⟨_, rfl, hsafe⟩
  · rintro ⟨_, ⟨⟩, hsafe⟩
    exact ⟨_, rfl, hsafe⟩

theorem claimsCompliance_iff :
    ClaimsCompliance assetID draws (assessAsset cm assetID assetName algorithms) ↔
      ¬ (assetID = "" ∨ ∀ scanID, draws.scanID ≠ .ok scanID) := by
  by_cases hid : assetID = ""
  · rw [hid, assessAsset_empty]
    exact iff_of_false (fun ⟨r, _, hr, _⟩ => nomatch hr) (not_not.mpr (.inl rfl))
  obtain ⟨r, hr, -⟩ := assessAsset_ok cm assetName algorithms hid
  rw [hr, not_or, not_forall]
  constructor
  · rintro ⟨_, att, ⟨⟩, hatt, -⟩
    refine ⟨hid, ?_⟩
    simp only [generateAttestationReport, if_neg hid] at hatt
    cases hdraw : draws.scanID with
    | error err => simp only [hdraw, reduceCtorEq] at hatt
    | ok scanID => exact ⟨scanID, not_not.mpr rfl⟩
  · rintro ⟨-, scanID, hdraw⟩
    obtain ⟨att, hatt, hclaims⟩ : ∃ att, generateAttestationReport assetID (some r) draws =
        .ok att ∧ att.nistCompliant = true := by
      simp only [generateAttestationReport, if_neg hid, not_not.mp hdraw]
      exact ⟨_, rfl, rfl⟩
    exact ⟨r, att, rfl, hatt, .inl hclaims⟩

/-- For a name of the Shor class, an attestation is not safe only if enough rows of the table of
vulnerable algorithms are found in it; and every attestation of a report claims compliance. -/
theorem shor_attestation (cm : CaseMap) (req : AttestationRequest) (k : Int) (assetName : String)
    (algorithms : List String) (draws : Draws)
    (hshor : (classify cm req.algorithm k).attackClass = .shor) (_ : req.algorithm ∈ algorithms) :
    (¬ SaidSafe (localAttest cm req) ↔ req.assetID = "" ∨
      3 * (safeRows cm [req.algorithm] + 1) ≤ 7 * vulnerableRows cm [req.algorithm]) ∧
    (¬ SaidSafe (engineAttest cm req) ↔ req.assetID = "" ∨
      3 * (safeRows cm [req.algorithm] + 1) ≤ 7 * vulnerableRows cm [req.algorithm]) ∧
    (¬ LevelSafe (assessAsset cm req.assetID assetName algorithms) ↔ req.assetID = "" ∨
      safeRows cm algorithms + 1 ≤ 99 * vulnerableRows cm algorithms) ∧
    (¬ ClaimsCompliance req.assetID draws (assessAsset cm req.assetID assetName algorithms) ↔
      req.assetID = "" ∨ ∀ scanID, draws.scanID ≠ .ok scanID) := by
  have hname : req.algorithm ≠ "" := by
    intro hempty
    rw [hempty, attackClass_eq_shor_iff, normalized_empty] at hshor
    exact not_shor_unknown (.inl rfl) hshor
  refine ⟨?_, ?_, ?_, ?_⟩
  · rw [saidSafe_local_iff hname, saidSafe_engine_iff, not_not]
  · rw [saidSafe_engine_iff, not_not]
  · rw [levelSafe_iff, not_not]
  · rw [claimsCompliance_iff, not_not]

def request : AttestationRequest := ⟨"asset-1", "ED25519", 256, "signature"⟩

theorem shor_attestation_ed25519 :
    (¬ SaidSafe (localAttest asciiCase request) ↔ request.assetID = "" ∨
      3 * (safeRows asciiCase ["ED25519"] + 1) ≤ 7 * vulnerableRows asciiCase ["ED25519"]) ∧
    (¬ SaidSafe (engineAttest asciiCase request) ↔ request.assetID = "" ∨
      3 * (safeRows asciiCase ["ED25519"] + 1) ≤ 7 * vulnerableRows asciiCase ["ED25519"]) ∧
    (¬ LevelSafe (assessAsset asciiCase request.assetID "host" ["ED25519"]) ↔
      request.assetID = "" ∨
      safeRows asciiCase ["ED25519"] + 1 ≤ 99 * vulnerableRows asciiCase ["ED25519"]) ∧
    (¬ ClaimsCompliance request.assetID ⟨.ok [], []⟩
      (assessAsset asciiCase request.assetID "host" ["ED25519"]) ↔
      request.assetID = "" ∨ ∀ scanID, Except.ok (ε := String) ([] : List UInt8) ≠ .ok scanID) :=
  shor_attestation asciiCase request 256 "host" ["ED25519"] ⟨.ok [], []⟩ (by decide)
    List.mem_cons_self

/-- No row is found in ED25519, which is attested to be safe. -/
theorem ed25519_said_safe :
    ¬ ∀ (cm : CaseMap) (req : AttestationRequest) (k : Int) (assetName : String)
      (algorithms : List String) (draws : Draws)
      (_ : (classify cm req.algorithm k).attackClass = .shor) (_ : req.algorithm ∈ algorithms),
      ¬ SaidSafe (localAttest cm req) ∧ ¬ SaidSafe (engineAttest cm req) ∧
      ¬ LevelSafe (assessAsset cm req.assetID assetName algorithms) ∧
      ¬ ClaimsCompliance req.assetID draws
        (assessAsset cm req.assetID assetName algorithms) := by
  intro h
  have hed := h asciiCase request 256 "host" ["ED25519"] ⟨.ok [], []⟩ (by decide) List.mem_cons_self
  exact hed.2.1 (saidSafe_engine_iff.mpr (by decide))

end RivicQ.Properties.Attestations
