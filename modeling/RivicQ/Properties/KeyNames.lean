import Mathlib.Data.List.Dedup
import RivicQ.Certeng.Certificates
import RivicQ.Cryptoscan.Detect

namespace RivicQ.Properties.Primitives

open RivicQ.Lib.GoStrings RivicQ.Lib.Marks RivicQ.Quantum.QiskitProfile RivicQ.Cryptoscan.Detect

/-- The names of the broken hashes and ciphers. -/
def brokenNames : List String := ["MD5", "SHA-1", "SHA1", "RC4", "3DES"]

/-- What is to be said of a broken primitive. -/
def GradedBroken (cl : AlgorithmScore) : Prop :=
  cl.qiskitFamily = "broken_classical" ∧ cl.quantumSafe = false ∧ pqcStatus cl = "broken_classical"

theorem pqcStatus_broken {cl : AlgorithmScore} (hclass : cl.attackClass ≠ .pqc)
    (hfamily : cl.qiskitFamily = "broken_classical") : pqcStatus cl = "broken_classical" := by
  rw [pqcStatus, if_neg hclass, if_pos hfamily]

/-- Of the names of broken primitives those are graded so that have none of the marks of sound
symmetric primitives and hashes in them, which SHA-1 and SHA1 have. -/
theorem gradedBroken_iff (cm : CaseMap) (s : String) (k : Int)
    (hbroken : Marked brokenNames (normalized cm s)) (hpqc : ¬ Marked pqcMarks (normalized cm s))
    (hshor : ¬ ShorMarked (normalized cm s)) :
    GradedBroken (classify cm s k) ↔ ¬ Marked groverMarks (normalized cm s) := by
  have hbroken' : Marked brokenMarks (normalized cm s) := hbroken.mono (by decide)
  have hstatus := @pqcStatus_broken (classify cm s k)
  have hc := classified cm s k
  unfold GradedBroken
  revert hstatus hc
  generalize pqcStatus (classify cm s k) = status, (classify cm s k).attackClass = cls,
    (classify cm s k).qiskitFamily = family, (classify cm s k).quantumSafe = safe
  rintro hstatus (hunknown | h | ⟨-, h⟩ | ⟨-, -, h⟩ | ⟨-, -, hgrover, -⟩ | ⟨-, -, -, h, -⟩ |
    ⟨-, -, -, h, -⟩)
  · exact absurd (hbroken'.mono (by decide)) (not_marked_unknown hunknown)
  · exact absurd h hpqc
  · exact absurd h hshor
  · exact iff_of_false (fun hg => absurd hg.1 (by decide)) (not_not.mpr h)
  · exact iff_of_true ⟨rfl, rfl, hstatus nofun rfl⟩ hgrover
  · exact absurd hbroken' h
  · exact absurd hbroken' h

theorem gradedBroken_md5 : GradedBroken (classify asciiCase "md5" 256) ↔
    ¬ Marked groverMarks (normalized asciiCase "md5") :=
  gradedBroken_iff asciiCase "md5" 256 (by decide) (by decide) (by decide)

/-- SHA-1 is graded by its key length, and with 256 bits it is even safe. -/
theorem sha1_not_gradedBroken :
    ¬ ∀ (cm : CaseMap) (s : String) (k : Int) (_ : Marked brokenNames (normalized cm s))
      (_ : ¬ Marked pqcMarks (normalized cm s)) (_ : ¬ ShorMarked (normalized cm s)),
      GradedBroken (classify cm s k) := by
  intro h
  have hsha := h asciiCase "SHA-1" 256 (by decide) (by decide) (by decide)
  have hsafe : (classify asciiCase "SHA-1" 256).quantumSafe = true := by decide
  exact absurd hsha.2.1 (hsafe ▸ nofun)

end RivicQ.Properties.Primitives

namespace RivicQ.Properties.Markers

open RivicQ.Lib.GoStrings RivicQ.Lib.Marks RivicQ.Lib.Casing RivicQ.Quantum.QiskitProfile
open RivicQ.Cryptoscan.Detect

/-- The markers of the post-quantum rules of the catalogue. -/
def pqcMarkers : List String :=
  (algorithmCatalog.filter fun r => r.algorithm ∈ ["ML-KEM", "ML-DSA", "SLH-DSA"]).flatMap
    AlgorithmRule.markers

theorem infix_of_tokenFrom {m s : List Char} {boundary : Bool} (h : tokenFrom m boundary s = true) :
    m <:+: s := by
  induction s generalizing boundary with
  | nil => exact nomatch h
  | cons c s ih =>
    rw [tokenFrom, Bool.or_eq_true, Bool.and_eq_true] at h
    obtain ⟨hfront, -⟩ | hrest := h
    · exact (List.isPrefixOf_iff_prefix.mp hfront).isInfix
    · exact List.infix_cons (ih hrest)

variable {u : UnicodeCase} {s m : String} {markers : List String}

theorem lower_newSurface (cm : CaseMap) (s : String) : (newSurface cm [s]).lower = toLower cm s := by
  simp [newSurface]

theorem contains_of_allToken (h : m ∈ (newSurface u.toCaseMap [s]).allToken u.toCaseMap markers) :
    contains (toLower u.toCaseMap s) (toLower u.toCaseMap m) = true := by
  have htoken := ((Bool.and_eq_true _ _).mp (List.mem_filter.mp h).2).2
  rw [Surface.tokenContains, lower_newSurface] at htoken
  exact contains_iff.mpr (infix_of_tokenFrom htoken)

/-- A marker is read in upper case as it is in ASCII. -/
theorem upper_marker (hm : m ∈ pqcMarkers) :
    toUpper u.toCaseMap (toLower u.toCaseMap m) = toUpper asciiCase (toLower asciiCase m) := by
  have hascii : ∀ m ∈ pqcMarkers, Ascii m ∧ Ascii (toLower asciiCase m) := by decide
  rw [toLower_ascii u (hascii m hm).1, toUpper_ascii u (hascii m hm).2]

theorem covered_marker : ∀ m ∈ pqcMarkers, m ∉ ["MLKEM", "MLDSA"] →
    Marked pqcMarks (toUpper asciiCase (toLower asciiCase m)) := by decide

theorem pqcMarks_graphic (hm : m ∈ pqcMarks) (c : Char) (hc : c ∈ m.toList) :
    isSpace c = false := by
  have h : ∀ m ∈ pqcMarks, m.toList.all (fun c => !isSpace c) = true := by decide
  simpa using List.all_eq_true.mp (h m hm) c hc

/-- The classifier takes a name in which the scanner finds a post-quantum marker for a post-quantum
one if it has one of the classifier's own marks in upper case; over runes that have the upper case
of their lower case, every marker but MLKEM and MLDSA has one. -/
theorem attackClass_pqc_iff (u : UnicodeCase) (s : String) (rule : AlgorithmRule)
    (hrule : rule ∈ algorithmCatalog)
    (hname : rule.algorithm ∈ ["ML-KEM", "ML-DSA", "SLH-DSA"])
    (_ : (newSurface u.toCaseMap [s]).allToken u.toCaseMap rule.markers ≠ []) :
    ((∀ k, (classify u.toCaseMap s k).attackClass = .pqc) ↔
      Marked pqcMarks (normalized u.toCaseMap s)) ∧
    ((∀ c ∈ s.toList, u.upper (u.lower c) = u.upper c) →
      ¬ Marked pqcMarks (normalized u.toCaseMap s) →
      ∀ m ∈ (newSurface u.toCaseMap [s]).allToken u.toCaseMap rule.markers,
        m ∈ ["MLKEM", "MLDSA"]) := by
  refine ⟨⟨fun h => attackClass_eq_pqc_iff.mp (h 0), fun h k => attackClass_eq_pqc_iff.mpr h⟩, ?_⟩
  intro hcase hmarks m hm
  by_contra hother
  have hmarker : m ∈ pqcMarkers :=
    List.mem_flatMap.mpr ⟨rule, List.mem_filter.mpr ⟨hrule, decide_eq_true hname⟩,
      List.mem_of_mem_filter hm⟩
  have hupper := contains_toUpper_toLower u hcase (contains_of_allToken hm)
  rw [upper_marker hmarker] at hupper
  obtain ⟨mark, hmark, hcontains⟩ := (covered_marker m hmarker hother).of_contains hupper
  exact hmarks ⟨mark, hmark, contains_toUpper_trimSpace u (pqcMarks_graphic hmark) hcontains⟩

def kemRule : AlgorithmRule :=
  { algorithm := "ML-KEM", category := "kem", replacement := "-"
    markers := ["ML-KEM", "MLKEM", "Kyber", "kyber", "CRYSTALS-Kyber"] }

theorem kemRule_mem : kemRule ∈ algorithmCatalog := by simp [algorithmCatalog, kemRule]

theorem attackClass_pqc_kyber :
    ((∀ k, (classify asciiCase "kyber-512" k).attackClass = .pqc) ↔
      Marked pqcMarks (normalized asciiCase "kyber-512")) ∧
    ((∀ c ∈ "kyber-512".toList, (c.toLower).toUpper = c.toUpper) →
      ¬ Marked pqcMarks (normalized asciiCase "kyber-512") →
      ∀ m ∈ (newSurface asciiCase ["kyber-512"]).allToken asciiCase kemRule.markers,
        m ∈ ["MLKEM", "MLDSA"]) :=
  attackClass_pqc_iff asciiTables "kyber-512" kemRule kemRule_mem (by decide) (by decide)

/-- `MLKEM` is found and not classified. -/
theorem mlkem_not_pqc :
    ¬ ∀ (u : UnicodeCase) (s : String) (rule : AlgorithmRule) (_ : rule ∈ algorithmCatalog)
      (_ : rule.algorithm ∈ ["ML-KEM", "ML-DSA", "SLH-DSA"])
      (_ : (newSurface u.toCaseMap [s]).allToken u.toCaseMap rule.markers ≠ []) (k : Int),
      (classify u.toCaseMap s k).attackClass = .pqc := by
  intro h
  have hpqc := h asciiTables "MLKEM" kemRule kemRule_mem (by decide) (by decide) 768
  exact absurd (attackClass_eq_pqc_iff.mp hpqc) (by decide)

end RivicQ.Properties.Markers

namespace RivicQ.Properties.KeyNames

open RivicQ.Lib.GoStrings RivicQ.Lib.Marks RivicQ.Lib.Casing RivicQ.Quantum.QiskitProfile
open RivicQ.Cryptoscan.Detect RivicQ.Certeng.Certificates RivicQ.Certeng.Assess

/-- The key algorithm that is derived from the name of a public key. -/
def keyNames (cm : CaseMap) (pub : String) : List String := firstCase (toUpper cm pub) keyCases

theorem mem_algorithmsFromCert {cm : CaseMap} {pub sig n : String} (h : n ∈ keyNames cm pub) :
    n ∈ algorithmsFromCert cm pub sig := by
  rw [algorithmsFromCert, List.mem_mergeSort, List.mem_dedup]
  exact List.mem_append_left _ (List.mem_append_left _ h)

/-- The certificate's verdict agrees with those of the key algorithm that is derived from its public
key. -/
structure Agree (cm : CaseMap) (pub evidence : String) (risk : RiskReport) : Prop where
  vulnerable : ∀ n ∈ keyNames cm pub, (algorithm cm n evidence).pqcStatus = "migration_required" →
    risk.quantumStatus = "quantum_vulnerable"
  safe : risk.quantumStatus = "quantum_safe" → ∀ n ∈ keyNames cm pub,
    (algorithm cm n evidence).pqcStatus = "quantum_safe"

def pqcKeyMarks : List String := ["ML-DSA", "MLDSA", "ML-KEM", "KYBER", "SLH-DSA", "SPHINCS"]

def classicalKeyMarks : List String := ["ECDSA", "ECC", "ED25519", "EDDSA", "RSA"]

variable {u : UnicodeCase} {a n evidence : String}

theorem status_ascii (hn : Ascii n) (hcatalog : Ascii (catalogName asciiCase n)) :
    (algorithm u.toCaseMap n evidence).pqcStatus =
      pqcStatus (classify asciiCase (catalogName asciiCase n) 0) := by
  rw [(algorithm_status u.toCaseMap n evidence).2, catalogName_ascii u hn, classify_ascii u hcatalog]

theorem status_pqc (hn : n ∈ ["ML-DSA", "ML-KEM", "SLH-DSA"]) :
    (algorithm u.toCaseMap n evidence).pqcStatus = "quantum_safe" := by
  have h : ∀ n ∈ ["ML-DSA", "ML-KEM", "SLH-DSA"], Ascii n ∧ Ascii (catalogName asciiCase n) ∧
      pqcStatus (classify asciiCase (catalogName asciiCase n) 0) = "quantum_safe" := by
    decide
  obtain ⟨hascii, hcatalog, hstatus⟩ := h n hn
  rw [status_ascii hascii hcatalog, hstatus]

theorem status_classical (hn : n ∈ ["ECDSA", "Ed25519", "RSA", "DSA", "DH"]) :
    (algorithm u.toCaseMap n evidence).pqcStatus = "migration_required" := by
  have h : ∀ n ∈ ["ECDSA", "Ed25519", "RSA", "DSA", "DH"], Ascii n ∧
      Ascii (catalogName asciiCase n) ∧
      pqcStatus (classify asciiCase (catalogName asciiCase n) 0) = "migration_required" := by
    decide
  obtain ⟨hascii, hcatalog, hstatus⟩ := h n hn
  rw [status_ascii hascii hcatalog, hstatus]

section Cases

variable {cm : CaseMap} {pub : String}

theorem verdict_vulnerable (h : Marked classicalKeyMarks (toUpper cm pub)) :
    (quantumVerdict (normalizeAlg cm pub)).1 = "quantum_vulnerable" := by
  simp only [classicalKeyMarks, marked_cons, marked_nil, or_false] at h
  unfold normalizeAlg
  dsimp only
  split_ifs with hrsa hec hed
  case pos => rfl
  case pos => rfl
  case pos => rfl
  all_goals
    simp only [Bool.or_eq_true, not_or] at hec hed
    obtain h | h | h | h | h := h
    · exact absurd h hec.1
    · exact absurd h hec.2
    · exact absurd h hed.1
    · exact absurd h hed.2
    · exact absurd h hrsa

/-- Without the other names, DSA is not known to be vulnerable, and MLKEM is safe. -/
theorem verdict_unmarked (hpqc : ¬ Marked pqcKeyMarks (toUpper cm pub))
    (hclassical : ¬ Marked classicalKeyMarks (toUpper cm pub)) :
    (contains (toUpper cm pub) "DSA" = true →
      (quantumVerdict (normalizeAlg cm pub)).1 ≠ "quantum_vulnerable") ∧
    (contains (toUpper cm pub) "MLKEM" = true →
      (quantumVerdict (normalizeAlg cm pub)).1 ≠ "quantum_vulnerable") ∧
    (contains (toUpper cm pub) "MLKEM" = false → contains (toUpper cm pub) "DSA" = false →
      contains (toUpper cm pub) "DH" = true →
      (quantumVerdict (normalizeAlg cm pub)).1 = "quantum_vulnerable") := by
  simp only [pqcKeyMarks, classicalKeyMarks, marked_cons, marked_nil, or_false, not_or,
    Bool.not_eq_true] at hpqc hclassical
  obtain ⟨hmldsa, hmldsa', hmlkem, hkyber, hslh, hsphincs⟩ := hpqc
  obtain ⟨hecdsa, hecc, hed, heddsa, hrsa⟩ := hclassical
  unfold normalizeAlg
  dsimp only
  simp only [hmldsa, hmldsa', hmlkem, hkyber, hslh, hsphincs, hecdsa, hecc, hed, heddsa, hrsa,
    Bool.false_or, Bool.or_false, Bool.false_eq_true, if_false]
  refine ⟨fun hdsa => ?_, fun hkem => ?_, fun hkem hdsa hdh => ?_⟩
  · simp only [hdsa, if_true]
    split_ifs <;> decide
  · simp only [hkem, if_true]
    decide
  · simp only [hkem, hdsa, hdh, Bool.false_eq_true, if_false, if_true]
    decide

theorem keyNames_pqc (h : Marked pqcKeyMarks (toUpper cm pub)) :
    ∀ n ∈ keyNames cm pub, n ∈ ["ML-DSA", "ML-KEM", "SLH-DSA"] := by
  simp only [pqcKeyMarks, marked_cons, marked_nil, or_false] at h
  simp only [keyNames, keyCases, firstCase_cons, List.any_cons, List.any_nil, Bool.or_false]
  split_ifs with hmldsa hmlkem hslh
  case pos => decide
  case pos => decide
  case pos => decide
  all_goals
    simp only [Bool.or_eq_true, not_or] at hmldsa hmlkem hslh
    obtain h | h | h | h | h | h := h
    · exact absurd h hmldsa.1
    · exact absurd h hmldsa.2
    · exact absurd h hmlkem.1
    · exact absurd h hmlkem.2
    · exact absurd h hslh.1
    · exact absurd h hslh.2

theorem keyNames_classical (hpqc : ¬ Marked pqcKeyMarks (toUpper cm pub)) :
    ∀ n ∈ keyNames cm pub, n ∈ ["ECDSA", "Ed25519", "RSA", "DSA", "DH"] := by
  simp only [pqcKeyMarks, marked_cons, marked_nil, or_false, not_or, Bool.not_eq_true] at hpqc
  obtain ⟨hmldsa, hmldsa', hmlkem, hkyber, hslh, hsphincs⟩ := hpqc
  simp only [keyNames, keyCases, firstCase_cons, List.any_cons, List.any_nil, hmldsa, hmldsa',
    hmlkem, hkyber, hslh, hsphincs, Bool.or_false, Bool.false_eq_true, if_false, firstCase_nil]
  split_ifs <;> decide

theorem keyNames_unmarked (hpqc : ¬ Marked pqcKeyMarks (toUpper cm pub))
    (hclassical : ¬ Marked classicalKeyMarks (toUpper cm pub)) : keyNames cm pub =
      if contains (toUpper cm pub) "DSA" then ["DSA"]
      else if contains (toUpper cm pub) "DH" then ["DH"] else [] := by
  simp only [pqcKeyMarks, classicalKeyMarks, marked_cons, marked_nil, or_false, not_or,
    Bool.not_eq_true] at hpqc hclassical
  obtain ⟨hmldsa, hmldsa', hmlkem, hkyber, hslh, hsphincs⟩ := hpqc
  obtain ⟨hecdsa, hecc, hed, heddsa, hrsa⟩ := hclassical
  simp only [keyNames, keyCases, firstCase_cons, List.any_cons, List.any_nil, hmldsa, hmldsa',
    hmlkem, hkyber, hslh, hsphincs, hecdsa, hecc, hed, heddsa, hrsa, Bool.or_false,
    Bool.false_eq_true, if_false]
  rfl

end Cases

/-- The two verdicts on a public key agree unless its name is told by DSA alone, which the
certificate's verdict leaves unknown, or by DH next to an MLKEM that only that verdict reads. -/
theorem agree_iff (u : UnicodeCase) (m : Metadata) (now : Time) (deviceLifetime evidence : String) :
    (∀ n ∈ keyNames u.toCaseMap m.publicKeyAlgorithm,
      n ∈ algorithmsFromCert u.toCaseMap m.publicKeyAlgorithm m.signatureAlgorithm) ∧
    (Agree u.toCaseMap m.publicKeyAlgorithm evidence (assess u.toCaseMap m now deviceLifetime) ↔
      Marked (pqcKeyMarks ++ classicalKeyMarks) (toUpper u.toCaseMap m.publicKeyAlgorithm) ∨
        contains (toUpper u.toCaseMap m.publicKeyAlgorithm) "DSA" = false ∧
        (contains (toUpper u.toCaseMap m.publicKeyAlgorithm) "DH" = true →
          contains (toUpper u.toCaseMap m.publicKeyAlgorithm) "MLKEM" = false)) := by
  refine ⟨fun n hn => mem_algorithmsFromCert hn, ?_⟩
  rw [marked_append]
  generalize hrisk : assess u.toCaseMap m now deviceLifetime = risk
  have hstatus : risk.quantumStatus =
      (quantumVerdict (normalizeAlg u.toCaseMap m.publicKeyAlgorithm)).1 := by
    rw [← hrisk, quantumStatus_assess]
  by_cases hpqc : Marked pqcKeyMarks (toUpper u.toCaseMap m.publicKeyAlgorithm)
  · refine iff_of_true ⟨fun n hn hrequired => ?_, fun _ n hn => ?_⟩ (.inl (.inl hpqc))
    · rw [status_pqc (keyNames_pqc hpqc n hn)] at hrequired
      exact absurd hrequired (by decide)
    · exact status_pqc (keyNames_pqc hpqc n hn)
  have hrequired : ∀ n ∈ keyNames u.toCaseMap m.publicKeyAlgorithm,
      (algorithm u.toCaseMap n evidence).pqcStatus = "migration_required" :=
    fun n hn => status_classical (keyNames_classical hpqc n hn)
  by_cases hclassical : Marked classicalKeyMarks (toUpper u.toCaseMap m.publicKeyAlgorithm)
  · rw [verdict_vulnerable hclassical] at hstatus
    refine iff_of_true ⟨fun _ _ _ => hstatus, fun hsafe => ?_⟩ (.inl (.inr hclassical))
    rw [hstatus] at hsafe
    exact absurd hsafe (by decide)
  obtain ⟨hdsa, hmlkem, hdh⟩ := verdict_unmarked hpqc hclassical
  have hnames := keyNames_unmarked hpqc hclassical
  rw [← hstatus] at hdsa hmlkem hdh
  have hunmarked : ¬ (Marked pqcKeyMarks (toUpper u.toCaseMap m.publicKeyAlgorithm) ∨
      Marked classicalKeyMarks (toUpper u.toCaseMap m.publicKeyAlgorithm)) :=
    not_or.mpr ⟨hpqc, hclassical⟩
  rw [or_iff_right hunmarked]
  -- What is left of the key's name is DSA, or DH, or none.
  cases hdsa' : contains (toUpper u.toCaseMap m.publicKeyAlgorithm) "DSA" with
  | true =>
    rw [hdsa', if_pos rfl] at hnames
    refine iff_of_false (fun h => ?_) fun h => nomatch h.1
    have hn : "DSA" ∈ keyNames u.toCaseMap m.publicKeyAlgorithm := hnames ▸ List.mem_cons_self
    exact hdsa hdsa' (h.vulnerable _ hn (hrequired _ hn))
  | false =>
    rw [hdsa', if_neg Bool.false_ne_true] at hnames
    cases hdh' : contains (toUpper u.toCaseMap m.publicKeyAlgorithm) "DH" with
    | true =>
      rw [hdh', if_pos rfl] at hnames
      have hn : "DH" ∈ keyNames u.toCaseMap m.publicKeyAlgorithm := hnames ▸ List.mem_cons_self
      cases hmlkem' : contains (toUpper u.toCaseMap m.publicKeyAlgorithm) "MLKEM" with
      | true =>
        refine iff_of_false (fun h => ?_) fun h => nomatch h.2 rfl
        exact hmlkem hmlkem' (h.vulnerable _ hn (hrequired _ hn))
      | false =>
        have hvulnerable := hdh hmlkem' hdsa' hdh'
        refine iff_of_true ⟨fun _ _ _ => hvulnerable, fun hsafe => ?_⟩ ⟨rfl, fun _ => rfl⟩
        rw [hvulnerable] at hsafe
        exact absurd hsafe (by decide)
    | false =>
      rw [hdh', if_neg Bool.false_ne_true] at hnames
      have hnone : ∀ n ∈ keyNames u.toCaseMap m.publicKeyAlgorithm, False := by
        rw [hnames]
        exact nofun
      exact iff_of_true ⟨fun n hn => (hnone n hn).elim, fun _ n hn => (hnone n hn).elim⟩
        ⟨rfl, nofun⟩

/-- A certificate with a DSA key is vulnerable to the scanner, and unknown to the engine. -/
theorem dsa_not_agree :
    ¬ ∀ (u : UnicodeCase) (m : Metadata) (now : Time) (deviceLifetime evidence : String),
      Agree u.toCaseMap m.publicKeyAlgorithm evidence
        (assess u.toCaseMap m now deviceLifetime) := by
  intro h
  have hdsa := h asciiTables
    { subject := "CN=device", publicKeyAlgorithm := "DSA", keySize := 2048
      signatureAlgorithm := "DSA-SHA256" } 0 "unknown" ""
  have hvulnerable := hdsa.vulnerable "DSA" (by decide) (status_classical (by decide))
  exact absurd hvulnerable (by decide)


end RivicQ.Properties.KeyNames
