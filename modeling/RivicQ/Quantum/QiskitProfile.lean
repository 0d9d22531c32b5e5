import RivicQ.Lib.Casing
import RivicQ.Lib.Tables

namespace RivicQ.Quantum.QiskitProfile

open RivicQ.Lib.GoStrings RivicQ.Lib.Marks RivicQ.Lib.Casing RivicQ.Lib.Tables

inductive AttackClass where
  | shor
  | grover
  | pqc
  | none
  deriving DecidableEq

def AttackClass.text : AttackClass → String
  | .shor => "shor"
  | .grover => "grover"
  | .pqc => "pqc"
  | .none => "none"

structure AlgorithmScore where
  algorithm : String
  attackClass : AttackClass
  qiskitFamily : String
  quantumSafe : Bool := false
  migration : String := ""
  estimatedQubits : String := ""
  note : String := ""

/-- The attack class of an algorithm, from its name. -/
def classify (cm : CaseMap) (algorithm : String) (keyLength : Int) : AlgorithmScore :=
  let a := toUpper cm (trimSpace algorithm)
  if a = "" || a = "UNKNOWN" then
    { algorithm, attackClass := .none, qiskitFamily := "unclassified" }
  else if contains a "ML-KEM" || contains a "KYBER" || contains a "ML-DSA" ||
      contains a "DILITHIUM" || contains a "SLH-DSA" || contains a "SPHINCS" ||
      contains a "FALCON" || contains a "HYBRID" then
    { algorithm, attackClass := .pqc, qiskitFamily := "nist_pqc", quantumSafe := true
      migration := "Already on a NIST PQC (or hybrid) primitive"
      note := "FIPS 203/204/205 class — not Shor-vulnerable" }
  else if contains a "RSA" ||
      contains a "DSA" && !contains a "ECDSA" && !contains a "ML-DSA" ||
      contains a "DH" || contains a "ECDH" || contains a "ECDSA" || contains a "ECDHE" ||
      contains a "P-256" || contains a "P-384" || contains a "SECP" ||
      contains a "X25519" && contains a "CLASSICAL" then
    { algorithm, attackClass := .shor, qiskitFamily := "shor"
      migration := "Hybrid classical + ML-KEM (KEM) and/or ML-DSA (signatures); " ++
        "SLH-DSA where stateless hash signatures are required"
      estimatedQubits := "order-of-magnitude public estimates only (not a device run)"
      note := "Shor's algorithm — public-key integer-factor / discrete-log family" }
  else if contains a "AES" || contains a "SHA" || contains a "HMAC" || contains a "CHACHA" ||
      contains a "POLY1305" then
    { algorithm, attackClass := .grover, qiskitFamily := "grover"
      quantumSafe := decide (keyLength ≥ 256) || contains a "SHA-384" || contains a "SHA-512" ||
        contains a "SHA3-256" || contains a "SHA3-512"
      migration :=
        "Use AES-256 / SHA-384+ so Grover still leaves classical-equivalent security"
      note :=
        "Grover's algorithm reduces symmetric/hash security roughly in half (query model)" }
  else if contains a "MD5" || contains a "SHA-1" || contains a "SHA1" || contains a "RC4" ||
      contains a "3DES" || contains a "DES" then
    { algorithm, attackClass := .grover, qiskitFamily := "broken_classical"
      migration := "Replace immediately (broken classically); do not wait for PQC"
      note := "Broken or legacy even without a quantum computer" }
  else if contains a "ED25519" || contains a "EDDSA" || contains a "CURVE25519" ||
      contains a "X25519" then
    { algorithm, attackClass := .shor, qiskitFamily := "shor"
      migration := "Plan ML-DSA / hybrid signatures; X-Wing or ML-KEM hybrid for KEM"
      estimatedQubits := "order-of-magnitude public estimates only (not a device run)"
      note := "Elliptic-curve / Edwards primitives are Shor-vulnerable" }
  else
    { algorithm, attackClass := .none, qiskitFamily := "unclassified"
      note := "Not mapped to a Qiskit attack class" }

section Marks

def pqcMarks : List String :=
  ["ML-KEM", "KYBER", "ML-DSA", "DILITHIUM", "SLH-DSA", "SPHINCS", "FALCON", "HYBRID"]

def shorMarks : List String := ["RSA", "DSA", "DH", "P-256", "P-384", "SECP"]

def groverMarks : List String := ["AES", "SHA", "HMAC", "CHACHA", "POLY1305"]

def longMarks : List String := ["SHA-384", "SHA-512", "SHA3-256", "SHA3-512"]

def brokenMarks : List String := ["MD5", "SHA-1", "SHA1", "RC4", "3DES", "DES"]

def edwardsMarks : List String := ["ED25519", "EDDSA", "CURVE25519", "X25519"]

/-- A text of the first case of Shor's algorithm. -/
def ShorMarked (a : String) : Prop :=
  Marked shorMarks a ∨ contains a "X25519" = true ∧ contains a "CLASSICAL" = true

instance (a : String) : Decidable (ShorMarked a) :=
  inferInstanceAs (Decidable (_ ∨ _ ∧ _))

/-- The text that the cases read. -/
def normalized (cm : CaseMap) (algorithm : String) : String := toUpper cm (trimSpace algorithm)

/-- The attack class, the family and the safety of a text, case by case. -/
inductive Classified (a : String) (keyLength : Int) : AttackClass → String → Bool → Prop where
  | unknown (h : a = "" ∨ a = "UNKNOWN") : Classified a keyLength .none "unclassified" false
  | pqc (h : Marked pqcMarks a) : Classified a keyLength .pqc "nist_pqc" true
  | shor (hpqc : ¬ Marked pqcMarks a) (h : ShorMarked a) :
      Classified a keyLength .shor "shor" false
  | grover (hpqc : ¬ Marked pqcMarks a) (hshor : ¬ ShorMarked a) (h : Marked groverMarks a) :
      Classified a keyLength .grover "grover" (decide (keyLength ≥ 256 ∨ Marked longMarks a))
  | broken (hpqc : ¬ Marked pqcMarks a) (hshor : ¬ ShorMarked a) (hgrover : ¬ Marked groverMarks a)
      (h : Marked brokenMarks a) : Classified a keyLength .grover "broken_classical" false
  | edwards (hpqc : ¬ Marked pqcMarks a) (hshor : ¬ ShorMarked a)
      (hgrover : ¬ Marked groverMarks a) (hbroken : ¬ Marked brokenMarks a)
      (h : Marked edwardsMarks a) : Classified a keyLength .shor "shor" false
  | unmapped (hpqc : ¬ Marked pqcMarks a) (hshor : ¬ ShorMarked a)
      (hgrover : ¬ Marked groverMarks a) (hbroken : ¬ Marked brokenMarks a)
      (hedwards : ¬ Marked edwardsMarks a) : Classified a keyLength .none "unclassified" false

variable {cm : CaseMap} {a s : String} {k : Int}

/-- Without a post-quantum mark, ECDH, ECDHE and ECDSA are told by DH and DSA. -/
theorem shorMarked_iff (hpqc : ¬ Marked pqcMarks a) : ShorMarked a ↔
    (contains a "RSA" || contains a "DSA" && !contains a "ECDSA" && !contains a "ML-DSA" ||
      contains a "DH" || contains a "ECDH" || contains a "ECDSA" || contains a "ECDHE" ||
      contains a "P-256" || contains a "P-384" || contains a "SECP" ||
      contains a "X25519" && contains a "CLASSICAL") = true := by
  have hmldsa : contains a "ML-DSA" = false :=
    Bool.eq_false_iff.mpr fun h => hpqc ⟨_, by decide, h⟩
  have hecdh : contains a "ECDH" = true → contains a "DH" = true :=
    fun h => contains_trans h (by decide)
  have hecdhe : contains a "ECDHE" = true → contains a "DH" = true :=
    fun h => contains_trans h (by decide)
  have hecdsa : contains a "ECDSA" = true → contains a "DSA" = true :=
    fun h => contains_trans h (by decide)
  simp only [ShorMarked, shorMarks, marked_cons, marked_nil, Bool.or_eq_true,
    Bool.and_eq_true, Bool.not_eq_true', hmldsa, and_true, or_false]
  cases hdsa : contains a "ECDSA" <;> grind

theorem classified (cm : CaseMap) (s : String) (k : Int) :
    Classified (normalized cm s) k (classify cm s k).attackClass (classify cm s k).qiskitFamily
      (classify cm s k).quantumSafe := by
  unfold classify
  extract_lets a
  change Classified a k _ _ _
  have hpqc : Marked pqcMarks a ↔ (contains a "ML-KEM" || contains a "KYBER" ||
      contains a "ML-DSA" || contains a "DILITHIUM" || contains a "SLH-DSA" ||
      contains a "SPHINCS" || contains a "FALCON" || contains a "HYBRID") = true := by
    simp only [pqcMarks, marked_cons, marked_nil, Bool.or_eq_true, or_false, or_assoc]
  have hgrover : Marked groverMarks a ↔ (contains a "AES" || contains a "SHA" ||
      contains a "HMAC" || contains a "CHACHA" || contains a "POLY1305") = true := by
    simp only [groverMarks, marked_cons, marked_nil, Bool.or_eq_true, or_false, or_assoc]
  have hbroken : Marked brokenMarks a ↔ (contains a "MD5" || contains a "SHA-1" ||
      contains a "SHA1" || contains a "RC4" || contains a "3DES" || contains a "DES") = true := by
    simp only [brokenMarks, marked_cons, marked_nil, Bool.or_eq_true, or_false, or_assoc]
  have hedwards : Marked edwardsMarks a ↔ (contains a "ED25519" || contains a "EDDSA" ||
      contains a "CURVE25519" || contains a "X25519") = true := by
    simp only [edwardsMarks, marked_cons, marked_nil, Bool.or_eq_true, or_false, or_assoc]
  have hlong : (decide (k ≥ 256) || contains a "SHA-384" || contains a "SHA-512" ||
      contains a "SHA3-256" || contains a "SHA3-512") =
      decide (k ≥ 256 ∨ Marked longMarks a) := by
    rw [Bool.eq_iff_iff]
    simp only [longMarks, marked_cons, marked_nil, Bool.or_eq_true, decide_eq_true_eq, or_false,
      or_assoc]
  by_cases h0 : (a = "" ∨ a = "UNKNOWN")
  · rw [if_pos (by simpa using h0)]
    exact .unknown h0
  rw [if_neg (by simpa using h0)]
  by_cases h1 : Marked pqcMarks a
  · rw [if_pos (hpqc.mp h1)]
    exact .pqc h1
  rw [if_neg (mt hpqc.mpr h1)]
  by_cases h2 : ShorMarked a
  · rw [if_pos ((shorMarked_iff h1).mp h2)]
    exact .shor h1 h2
  rw [if_neg (mt (shorMarked_iff h1).mpr h2)]
  by_cases h3 : Marked groverMarks a
  · rw [if_pos (hgrover.mp h3), hlong]
    exact .grover h1 h2 h3
  rw [if_neg (mt hgrover.mpr h3)]
  by_cases h4 : Marked brokenMarks a
  · rw [if_pos (hbroken.mp h4)]
    exact .broken h1 h2 h3 h4
  rw [if_neg (mt hbroken.mpr h4)]
  by_cases h5 : Marked edwardsMarks a
  · rw [if_pos (hedwards.mp h5)]
    exact .edwards h1 h2 h3 h4 h5
  · rw [if_neg (mt hedwards.mpr h5)]
    exact .unmapped h1 h2 h3 h4 h5

/-- A text that the cases put in the Shor class. -/
def Shor (a : String) : Prop :=
  ¬ Marked pqcMarks a ∧ (ShorMarked a ∨
    ¬ Marked groverMarks a ∧ ¬ Marked brokenMarks a ∧ Marked edwardsMarks a)

instance (a : String) : Decidable (Shor a) := inferInstanceAs (Decidable (_ ∧ (_ ∨ _ ∧ _ ∧ _)))

theorem not_marked_unknown (h : a = "" ∨ a = "UNKNOWN") :
    ¬ Marked (pqcMarks ++ shorMarks ++ groverMarks ++ brokenMarks ++ edwardsMarks) a := by
  obtain rfl | rfl := h <;> decide

theorem not_shor_unknown (h : a = "" ∨ a = "UNKNOWN") : ¬ Shor a := by
  obtain rfl | rfl := h <;> decide

theorem normalized_empty (cm : CaseMap) : normalized cm "" = "" := by
  simp [normalized, trimSpace, trimRunes, toUpper]

theorem attackClass_eq_pqc_iff :
    (classify cm s k).attackClass = .pqc ↔ Marked pqcMarks (normalized cm s) := by
  have hc := classified cm s k
  revert hc
  generalize (classify cm s k).attackClass = cls, (classify cm s k).qiskitFamily = family,
    (classify cm s k).quantumSafe = safe
  rintro (hunknown | hpqc | ⟨hpqc, -⟩ | ⟨hpqc, -⟩ | ⟨hpqc, -⟩ | ⟨hpqc, -⟩ | ⟨hpqc, -⟩)
  · refine iff_of_false nofun fun h => not_marked_unknown hunknown ?_
    exact h.mono (by decide)
  · exact iff_of_true rfl hpqc
  all_goals exact iff_of_false nofun hpqc

theorem attackClass_eq_shor_iff :
    (classify cm s k).attackClass = .shor ↔ Shor (normalized cm s) := by
  have hc := classified cm s k
  revert hc
  generalize (classify cm s k).attackClass = cls, (classify cm s k).qiskitFamily = family,
    (classify cm s k).quantumSafe = safe
  rintro (hunknown | hpqc | ⟨hpqc, hshor⟩ | ⟨hpqc, hshor, hgrover⟩ |
    ⟨hpqc, hshor, hgrover, hbroken⟩ | ⟨hpqc, hshor, hgrover, hbroken, hedwards⟩ |
    ⟨hpqc, hshor, hgrover, hbroken, hedwards⟩)
  · exact iff_of_false nofun (not_shor_unknown hunknown)
  · exact iff_of_false nofun fun h => h.1 hpqc
  · exact iff_of_true rfl ⟨hpqc, .inl hshor⟩
  · exact iff_of_false nofun fun h => h.2.elim hshor fun h => h.1 hgrover
  · exact iff_of_false nofun fun h => h.2.elim hshor fun h => h.2.1 hbroken
  · exact iff_of_true rfl ⟨hpqc, .inr ⟨hgrover, hbroken, hedwards⟩⟩
  · exact iff_of_false nofun fun h => h.2.elim hshor fun h => hedwards h.2.2

/-- The attack class of a text in upper case. -/
def textClass (a : String) : AttackClass :=
  if Marked pqcMarks a then .pqc
  else if Shor a then .shor
  else if Marked groverMarks a ∨ Marked brokenMarks a then .grover
  else .none

theorem classified_textClass {family : String} {safe : Bool}
    (h : Classified a k cls family safe) : textClass a = cls := by
  cases h with
  | unknown h =>
    obtain rfl | rfl := h <;> decide
  | pqc h => exact if_pos h
  | shor hpqc h => exact (if_neg hpqc).trans (if_pos ⟨hpqc, .inl h⟩)
  | grover hpqc hshor h =>
    have hnot : ¬ Shor a := fun hs => hs.2.elim hshor fun hs => hs.1 h
    exact (if_neg hpqc).trans ((if_neg hnot).trans (if_pos (.inl h)))
  | broken hpqc hshor hgrover h =>
    have hnot : ¬ Shor a := fun hs => hs.2.elim hshor fun hs => hs.2.1 h
    exact (if_neg hpqc).trans ((if_neg hnot).trans (if_pos (.inr h)))
  | edwards hpqc hshor hgrover hbroken h =>
    exact (if_neg hpqc).trans (if_pos ⟨hpqc, .inr ⟨hgrover, hbroken, h⟩⟩)
  | unmapped hpqc hshor hgrover hbroken hedwards =>
    have hnot : ¬ Shor a := fun hs => hs.2.elim hshor fun hs => hedwards hs.2.2
    have hweak : ¬ (Marked groverMarks a ∨ Marked brokenMarks a) := fun h => h.elim hgrover hbroken
    exact (if_neg hpqc).trans ((if_neg hnot).trans (if_neg hweak))

/-- The class of a finding is that of its name. -/
theorem attackClass_classify :
    (classify cm s k).attackClass = textClass (normalized cm s) :=
  (classified_textClass (classified cm s k)).symm

/-- The upper-cased text tells the name. -/
theorem normalized_of_toUpper {u : UnicodeCase} {t : String}
    (h : toUpper u.toCaseMap s = toUpper u.toCaseMap t) :
    normalized u.toCaseMap s = normalized u.toCaseMap t := by
  have htrim : ∀ s, normalized u.toCaseMap s = trimSpace (toUpper u.toCaseMap s) := by
    intro s
    simp only [normalized, trimSpace, toUpper, String.toList_ofList,
      trimRunes_map u.upper u.isSpace_upper]
  rw [htrim, htrim, h]

theorem ascii_trimSpace (hs : Ascii s) : Ascii (trimSpace s) := by
  intro c hc
  simp only [trimSpace, String.toList_ofList, trimRunes] at hc
  have hfront : c ∈ s.toList.dropWhile isSpace := (List.rdropWhile_prefix _ _).subset hc
  exact hs c ((List.dropWhile_suffix _).subset hfront)

theorem classify_ascii (u : UnicodeCase) (hs : Ascii s) (k : Int) :
    classify u.toCaseMap s k = classify asciiCase s k := by
  unfold classify
  rw [toUpper_ascii u (ascii_trimSpace hs)]

end Marks

section Estate

structure FindingInput where
  algorithm : String := ""
  keyLength : Int := 0
  quantumSafe : Bool := false
  scanner : String := ""

structure PipelineResult where
  engine : String := "rivicq-qiskit-profile"
  backend : String := "local-classical"
  method : String := "Qiskit-aligned attack-class scoring (Shor / Grover / NIST PQC). " ++
    "Not a hardware quantum measurement."
  estateScore : Int := 0
  shorVulnerable : Int := 0
  groverAffected : Int := 0
  pqcReady : Int := 0
  unclassified : Int := 0
  algorithms : List AlgorithmScore := []
  resources : Table Bool := ∅
  note : String := "Local classical profile aligned to Qiskit's Shor/Grover/PQC taxonomy. " ++
    "IBM Quantum Runtime is not invoked. Optional Aer circuits: sdk/python/rivicq_qiskit."

/-- The resources before any finding. -/
def resources : Table Bool :=
  ["tls", "http", "https", "ssh", "sbom", "github"].foldl (fun t k => t.insert k false) ∅

variable (cm : CaseMap)

/-- The score of a finding; discovery may already flag PQC libraries. -/
def scoreFinding (f : FindingInput) : AlgorithmScore :=
  let cl := classify cm f.algorithm f.keyLength
  if f.quantumSafe && cl.attackClass ≠ .pqc then { cl with quantumSafe := f.quantumSafe } else cl

/-- A scanner is a resource that was reached. -/
def PipelineResult.reach (res : PipelineResult) (scanner : String) : PipelineResult :=
  if scanner ≠ "" then
    { res with resources := res.resources.insert (toLower cm scanner) true }
  else res

/-- A new algorithm is listed, and counted under its class. -/
def PipelineResult.add (res : PipelineResult) (cl : AlgorithmScore) : PipelineResult :=
  let res := { res with algorithms := res.algorithms ++ [cl] }
  match cl.attackClass with
  | .shor => { res with shorVulnerable := res.shorVulnerable + 1 }
  | .grover => { res with groverAffected := res.groverAffected + 1 }
  | .pqc => { res with pqcReady := res.pqcReady + 1 }
  | .none => { res with unclassified := res.unclassified + 1 }

/-- The loop over the findings, with the algorithms it has seen. -/
def scoreLoop (seen : Table AlgorithmScore) (res : PipelineResult) :
    List FindingInput → PipelineResult
  | [] => res
  | f :: fs =>
    let key := normalized cm f.algorithm
    if key = "" then scoreLoop seen (res.reach cm f.scanner) fs
    else if (seen.lookup key).isSome then scoreLoop seen (res.reach cm f.scanner) fs
    else
      scoreLoop (seen.insert key (scoreFinding cm f))
        ((res.reach cm f.scanner).add (scoreFinding cm f)) fs

/-- The estate score starts at 100: Shor costs most, and PQC is rewarded. -/
def estateScore (res : PipelineResult) : Int :=
  let score := 100 - res.shorVulnerable * 12 - res.groverAffected * 4 + res.pqcReady * 6
  let score := if score < 0 then 0 else score
  if score > 100 then 100 else score

def scoreFindings (fs : List FindingInput) : PipelineResult :=
  let res := scoreLoop cm ∅ { resources } fs
  { res with estateScore := estateScore res }

end Estate

end RivicQ.Quantum.QiskitProfile
