import RivicQ.Compliance.Engine
import RivicQ.Intelligence.PQCClass
import RivicQ.Quantum.QiskitProfile

namespace RivicQ.Properties.Compliance

open RivicQ.Lib.GoStrings RivicQ.Lib.Marks RivicQ.Quantum.QiskitProfile RivicQ.Compliance.Engine

/-- A name that starts with one of the listed names. -/
def Listed (cm : CaseMap) (algorithm : String) : Prop :=
  ∃ v ∈ vulnerableAlgorithms, v.toList <+: (toUpper cm algorithm).toList

theorem isQuantumVulnerable_iff (cm : CaseMap) (algorithm : String) :
    isQuantumVulnerable cm algorithm = true ↔ Listed cm algorithm := by
  simp only [isQuantumVulnerable, List.any_eq_true, hasPrefix, decide_eq_true_iff]
  exact Iff.rfl

/-- That an asset is compliant keeps its algorithm out of the Shor class if the algorithm has none
of the marks of that class, or starts with a listed name. -/
theorem compliant_sound_iff (cm : CaseMap) (asset : CryptoAsset) :
    ∃ report, evaluate cm (some asset) = .ok report ∧
      ((report.compliant = true → ∀ k, (classify cm asset.algorithm k).attackClass ≠ .shor) ↔
        ¬ Shor (normalized cm asset.algorithm) ∨ Listed cm asset.algorithm) := by
  refine ⟨_, rfl, ?_⟩
  rw [compliant_iff rfl, ← Bool.not_eq_true, isQuantumVulnerable_iff]
  constructor
  · intro h
    by_cases hlisted : Listed cm asset.algorithm
    · exact .inr hlisted
    · exact .inl fun hshor => h hlisted 0 (attackClass_eq_shor_iff.mpr hshor)
  · rintro (hshor | hlisted) hcompliant k hclass
    · exact hshor (attackClass_eq_shor_iff.mp hclass)
    · exact hcompliant hlisted

/-- X25519 is reported as compliant. -/
theorem x25519_compliant :
    ¬ ∀ (cm : CaseMap) (asset : CryptoAsset) (report : ComplianceReport)
      (_ : evaluate cm (some asset) = .ok report) (_ : report.compliant = true) (k : Int),
      (classify cm asset.algorithm k).attackClass ≠ .shor := by
  intro h
  exact h asciiCase ⟨"1", "vpn", "X25519", 256, "key exchange"⟩ _ rfl (by decide) 256 (by decide)

end RivicQ.Properties.Compliance

namespace RivicQ.Properties.Readiness

open RivicQ.Lib.GoStrings RivicQ.Lib.Marks RivicQ.Lib.Casing RivicQ.Quantum.QiskitProfile
open RivicQ.Intelligence.Findings RivicQ.Intelligence.PQCClass

/-- The marks of what is broken already. -/
def legacyMarks : List String :=
  ["MD5", "RC4", "3DES", "DES-EDE", " TRIPLE DES", "TRIPLEDES", "SHA-1", "SHA1", "TLS 1.0",
    "TLS1.0", "TLS 1.1", "TLS1.1", "SSL 3.0", "SSL3.0"]

def standardMarks : List String :=
  ["ML-KEM", "ML-KSA", "ML_DSA", "ML-DSA", "SLH-DSA", "FALCON", "DILITHIUM", "SPHINCS"]

/-- A text that the rules put in the class of what is broken or weak. -/
def Refused (blob : String) (keyLength : Int) : Prop :=
  Marked legacyMarks blob ∨ contains blob "RSA" = true ∧ 0 < keyLength ∧ keyLength < 2048

/-- The name of a symmetric primitive or a hash. -/
def Symmetric (a : String) : Prop :=
  ¬ Marked pqcMarks a ∧ ¬ ShorMarked a ∧ Marked groverMarks a

/-- A broken primitive without any such mark. -/
def Broken (a : String) : Prop :=
  ¬ Marked pqcMarks a ∧ ¬ ShorMarked a ∧ ¬ Marked groverMarks a ∧ Marked brokenMarks a

/-- The names on which the two verdicts part. -/
inductive Parted (a blob : String) (keyLength : Int) : Prop where
  /-- A post-quantum name next to a broken or weak one. -/
  | refused (h : Marked pqcMarks a) (hrefused : Refused blob keyLength)
  /-- KYBER or HYBRID, without a name of the standards. -/
  | unlisted (h : Marked pqcMarks a) (hstandard : ¬ Marked standardMarks blob)
  /-- A large key or a long digest next to a broken name. -/
  | legacy (h : Symmetric a) (hsize : 256 ≤ keyLength ∨ Marked longMarks a)
      (hrefused : Refused blob keyLength)
  /-- A long digest, for which no key length is given. -/
  | digest (h : Symmetric a) (hlong : Marked longMarks a) (hkey : keyLength < 256)
      (hstandard : ¬ Marked standardMarks blob)
  /-- A broken cipher with a large key. -/
  | key (h : Broken a) (hkey : 256 ≤ keyLength) (hrefused : ¬ Refused blob keyLength)
  /-- A name of the standards in a spelling that is not classified so. -/
  | misspelt (h : ¬ Marked pqcMarks a) (hstandard : Marked standardMarks blob)
      (hrefused : ¬ Refused blob keyLength)
      (hsize : Symmetric a → keyLength < 256 ∧ ¬ Marked longMarks a)

variable {blob : String} {k : Int} {cls : AttackClass}

theorem refused_iff : Refused blob k ↔
    containsAny blob ["MD5"] = true ∨ containsAny blob ["RC4"] = true ∨
    containsAny blob ["3DES", "DES-EDE", " TRIPLE DES", "TRIPLEDES"] = true ∨
    containsAny blob ["SHA-1", "SHA1"] = true ∨
    containsAny blob ["TLS 1.0", "TLS1.0", "TLS 1.1", "TLS1.1", "SSL 3.0", "SSL3.0"] = true ∨
    (contains blob "RSA" && decide (k > 0) && decide (k < 2048)) = true := by
  have hlists : legacyMarks = ["MD5"] ++ (["RC4"] ++
      (["3DES", "DES-EDE", " TRIPLE DES", "TRIPLEDES"] ++ (["SHA-1", "SHA1"] ++
        ["TLS 1.0", "TLS1.0", "TLS 1.1", "TLS1.1", "SSL 3.0", "SSL3.0"]))) := rfl
  simp only [Refused, hlists, marked_append, containsAny, any_contains_iff, Bool.and_eq_true,
    decide_eq_true_eq, or_assoc, and_assoc, gt_iff_lt]

theorem classRules_refused (h : Refused blob k) :
    (classRules blob k cls).1 ∉ [classPQCReady, classPQCHybridReady] := by
  have hcases := refused_iff.mp h
  unfold classRules
  split_ifs with hmd5 hrc4 h3des hsha1 htls hrsa
  case pos => decide
  case pos => decide
  case pos => decide
  case pos => decide
  case pos => decide
  case pos => decide
  all_goals simp only [hmd5, hrc4, h3des, hsha1, htls, hrsa, or_self,
    Bool.false_eq_true] at hcases

theorem classRules_fine (h : ¬ Refused blob k) : classRules blob k cls =
    if containsAny blob standardMarks then
      if isHybridEvidence blob then
        (classPQCHybridReady, "PQC primitive combined with a classical primitive (hybrid)")
      else (classPQCReady, "NIST-standardised post-quantum primitive (FIPS 203/204/205 family)")
    else
      match cls with
      | .shor => (classPQCMigrationRequired, "classical public-key primitive, broken by a " ++
          "cryptographically relevant quantum computer")
      | .grover =>
        if k > 0 && k ≥ 256 then
          (classPQCHybridReady, "symmetric/hash primitive at a Grover-resistant key size")
        else (classPQCHighRisk, "symmetric/hash primitive below Grover-resistant key size")
      | _ => (classPQCUnknown, "insufficient evidence to classify from the available fields") := by
  rw [refused_iff] at h
  simp only [not_or] at h
  obtain ⟨hmd5, hrc4, h3des, hsha1, htls, hrsa⟩ := h
  unfold classRules
  rw [if_neg hmd5, if_neg hrc4, if_neg h3des, if_neg hsha1, if_neg htls, if_neg hrsa]
  rfl

/-- What the rules have for ready. -/
theorem classRules_ready_iff : (classRules blob k cls).1 ∈ [classPQCReady, classPQCHybridReady] ↔
    ¬ Refused blob k ∧ (Marked standardMarks blob ∨ cls = .grover ∧ 256 ≤ k) := by
  by_cases hrefused : Refused blob k
  · exact iff_of_false (classRules_refused hrefused) fun h => h.1 hrefused
  rw [classRules_fine hrefused]
  by_cases hstandard : containsAny blob standardMarks = true
  · rw [if_pos hstandard]
    refine iff_of_true ?_ ⟨hrefused, .inl (any_contains_iff.mp hstandard)⟩
    split_ifs <;> decide
  rw [if_neg hstandard]
  have hmarks : ¬ Marked standardMarks blob := mt any_contains_iff.mpr hstandard
  have hmigration : classPQCMigrationRequired ∉ [classPQCReady, classPQCHybridReady] := by decide
  have hrisk : classPQCHighRisk ∉ [classPQCReady, classPQCHybridReady] := by decide
  have hunknown : classPQCUnknown ∉ [classPQCReady, classPQCHybridReady] := by decide
  cases cls with
  | shor => exact iff_of_false hmigration fun h => h.2.elim hmarks nofun
  | grover =>
    by_cases hkey : 256 ≤ k
    · have hpos : (decide (k > 0) && decide (k ≥ 256)) = true := by
        simp only [Bool.and_eq_true, decide_eq_true_eq]
        omega
      simp only [if_pos hpos]
      exact iff_of_true (by decide) ⟨hrefused, .inr ⟨trivial, hkey⟩⟩
    · have hsmall : ¬ (decide (k > 0) && decide (k ≥ 256)) = true := by
        simp only [Bool.and_eq_true, decide_eq_true_eq]
        omega
      simp only [if_neg hsmall]
      exact iff_of_false hrisk fun h => h.2.elim hmarks fun hk => hkey hk.2
  | pqc => exact iff_of_false hunknown fun h => h.2.elim hmarks nofun
  | none => exact iff_of_false hunknown fun h => h.2.elim hmarks nofun

section Verdicts

variable {u : UnicodeCase} {cm : CaseMap} {a s : String}

/-- What the classifier has for safe. -/
theorem quantumSafe_iff : (classify cm s k).quantumSafe = true ↔
    Marked pqcMarks (normalized cm s) ∨
      Symmetric (normalized cm s) ∧ (256 ≤ k ∨ Marked longMarks (normalized cm s)) := by
  have hc := classified cm s k
  revert hc
  generalize (classify cm s k).attackClass = cls, (classify cm s k).qiskitFamily = family,
    (classify cm s k).quantumSafe = safe
  rintro (hunknown | h | ⟨hpqc, h⟩ | ⟨hpqc, hshor, h⟩ | ⟨hpqc, -, h, -⟩ | ⟨hpqc, -, h, -⟩ |
    ⟨hpqc, -, h, -⟩)
  · have hnone := not_marked_unknown hunknown
    refine iff_of_false nofun ?_
    rintro (h | ⟨⟨-, -, h⟩, -⟩)
    · exact hnone (h.mono (by decide))
    · exact hnone (h.mono (by decide))
  · exact iff_of_true rfl (.inl h)
  · exact iff_of_false nofun fun hsafe => hsafe.elim hpqc fun hs => hs.1.2.1 h
  · rw [decide_eq_true_iff]
    exact ⟨fun hsize => .inr ⟨⟨hpqc, hshor, h⟩, hsize⟩, fun hsafe =>
      hsafe.elim (fun hp => absurd hp hpqc) (·.2)⟩
  all_goals exact iff_of_false nofun fun hsafe => hsafe.elim hpqc fun hs => h hs.1.2.2

theorem attackClass_grover_iff : (classify cm s k).attackClass = .grover ↔
    Symmetric (normalized cm s) ∨ Broken (normalized cm s) := by
  have hc := classified cm s k
  revert hc
  generalize (classify cm s k).attackClass = cls, (classify cm s k).qiskitFamily = family,
    (classify cm s k).quantumSafe = safe
  rintro (hunknown | h | ⟨-, h⟩ | ⟨hpqc, hshor, h⟩ | ⟨hpqc, hshor, hgrover, h⟩ |
    ⟨-, -, hgrover, h, -⟩ | ⟨-, -, hgrover, h, -⟩)
  · have hnone := not_marked_unknown hunknown
    refine iff_of_false nofun ?_
    rintro (⟨-, -, h⟩ | ⟨-, -, -, h⟩)
    · exact hnone (h.mono (by decide))
    · exact hnone (h.mono (by decide))
  · exact iff_of_false nofun fun hg => hg.elim (fun hs => hs.1 h) fun hb => hb.1 h
  · exact iff_of_false nofun fun hg => hg.elim (fun hs => hs.2.1 h) fun hb => hb.2.1 h
  · exact iff_of_true rfl (.inl ⟨hpqc, hshor, h⟩)
  · exact iff_of_true rfl (.inr ⟨hpqc, hshor, hgrover, h⟩)
  all_goals exact iff_of_false nofun fun hg => hg.elim (fun hs => hgrover hs.2.2) fun hb => h hb.2.2.2

theorem parted_cases : Parted a blob k ↔
    Marked pqcMarks a ∧ (Refused blob k ∨ ¬ Marked standardMarks blob) ∨
    Symmetric a ∧ (256 ≤ k ∨ Marked longMarks a) ∧ Refused blob k ∨
    Symmetric a ∧ Marked longMarks a ∧ ¬ 256 ≤ k ∧ ¬ Marked standardMarks blob ∨
    Broken a ∧ 256 ≤ k ∧ ¬ Refused blob k ∨
    ¬ Marked pqcMarks a ∧ Marked standardMarks blob ∧ ¬ Refused blob k ∧
      (Symmetric a → ¬ 256 ≤ k ∧ ¬ Marked longMarks a) := by
  simp only [Int.not_le]
  constructor
  · rintro (⟨h, hr⟩ | ⟨h, hs⟩ | ⟨h, hsize, hr⟩ | ⟨h, hl, hk, hs⟩ | ⟨h, hk, hr⟩ | ⟨h, hs, hr, hsize⟩)
    · exact .inl ⟨h, .inl hr⟩
    · exact .inl ⟨h, .inr hs⟩
    · exact .inr (.inl ⟨h, hsize, hr⟩)
    · exact .inr (.inr (.inl ⟨h, hl, hk, hs⟩))
    · exact .inr (.inr (.inr (.inl ⟨h, hk, hr⟩)))
    · exact .inr (.inr (.inr (.inr ⟨h, hs, hr, hsize⟩)))
  · rintro (⟨h, hr | hs⟩ | ⟨h, hsize, hr⟩ | ⟨h, hl, hk, hs⟩ | ⟨h, hk, hr⟩ | ⟨h, hs, hr, hsize⟩)
    · exact .refused h hr
    · exact .unlisted h hs
    · exact .legacy h hsize hr
    · exact .digest h hl hk hs
    · exact .key h hk hr
    · exact .misspelt h hs hr hsize

/-- The two verdicts on a name, as conditions on the texts that they read. -/
theorem not_parted_iff : ((Marked pqcMarks a ∨ Symmetric a ∧ (256 ≤ k ∨ Marked longMarks a)) ↔
      (¬ Refused blob k ∧ (Marked standardMarks blob ∨ (Symmetric a ∨ Broken a) ∧ 256 ≤ k))) ↔
    ¬ Parted a blob k := by
  have hsymmetric : Symmetric a → ¬ Marked pqcMarks a := fun h => h.1
  have hbroken : Broken a → ¬ Marked pqcMarks a ∧ ¬ Symmetric a :=
    fun h => ⟨h.1, fun hs => h.2.2.1 hs.2.2⟩
  rw [parted_cases]
  by_cases hs : Symmetric a <;> by_cases hb : Broken a <;> by_cases hp : Marked pqcMarks a <;>
    simp only [hs, hb, hp, true_and, false_and, true_or, false_or, or_false] at * <;>
    tauto

end Verdicts

/-- Without a name the taxonomy classifies two blanks, which have no class either. -/
theorem attackClass_blob (u : UnicodeCase) (f : Finding) (hevidence : f.evidence = "")
    (htitle : f.title = "") (hname : f.algorithm = "") :
    (classify u.toCaseMap (Finding.blob u.toCaseMap f) f.keyLength).attackClass =
      (classify u.toCaseMap f.algorithm f.keyLength).attackClass := by
  have hblob : Finding.blob u.toCaseMap f = toUpper u.toCaseMap "  " := by
    rw [Finding.blob, hname, hevidence, htitle]
    rfl
  have hblank : toUpper asciiCase "  " = "  " := by decide
  rw [hblob, toUpper_ascii u (by decide), hblank, hname, classify_ascii u (by decide),
    classify_ascii u (by decide)]
  rfl

/-- The classifier and the taxonomy agree on the safety of a finding that is known by its algorithm
alone, but for the names on which they part. -/
theorem safe_iff_ready (u : UnicodeCase) (f : Finding) (hclass : f.pqcClass = "")
    (hevidence : f.evidence = "") (htitle : f.title = "") :
    ((classify u.toCaseMap f.algorithm f.keyLength).quantumSafe = true ↔
      classifyPQC u.toCaseMap f ∈ [classPQCReady, classPQCHybridReady]) ↔
    ¬ Parted (normalized u.toCaseMap f.algorithm) (Finding.blob u.toCaseMap f) f.keyLength := by
  have hrules : classifyPQC u.toCaseMap f = (classRules (Finding.blob u.toCaseMap f) f.keyLength
      (classify u.toCaseMap f.algorithm f.keyLength).attackClass).1 := by
    rw [classifyPQC, classifyPQCWithReason, if_neg (not_not.mpr hclass)]
    by_cases hblob : (classify u.toCaseMap f.algorithm f.keyLength).attackClass = .none ∧
        f.algorithm = ""
    · simp only [if_pos hblob, attackClass_blob u f hevidence htitle hblob.2]
    · simp only [if_neg hblob]
  rw [hrules, classRules_ready_iff, quantumSafe_iff, attackClass_grover_iff]
  exact not_parted_iff

theorem safe_iff_ready_aes :
    ((classify asciiCase "AES-256" 256).quantumSafe = true ↔
      classifyPQC asciiCase { algorithm := "AES-256", keyLength := 256 } ∈
        [classPQCReady, classPQCHybridReady]) ↔
    ¬ Parted (normalized asciiCase "AES-256")
      (Finding.blob asciiCase { algorithm := "AES-256", keyLength := 256 }) 256 :=
  safe_iff_ready asciiTables { algorithm := "AES-256", keyLength := 256 } rfl rfl rfl

/-- A KYBER name is safe to the classifier, and unknown to the taxonomy. -/
theorem kyber_not_ready :
    ¬ ∀ (u : UnicodeCase) (f : Finding) (_ : f.pqcClass = "") (_ : f.evidence = "")
      (_ : f.title = ""), (classify u.toCaseMap f.algorithm f.keyLength).quantumSafe = true ↔
        classifyPQC u.toCaseMap f ∈ [classPQCReady, classPQCHybridReady] := by
  intro h
  have hkyber := h asciiTables { algorithm := "KYBER-768" } rfl rfl rfl
  have hsafe : (classify asciiCase "KYBER-768" 0).quantumSafe = true := by decide
  exact absurd (hkyber.mp hsafe) (by decide)

end RivicQ.Properties.Readiness
