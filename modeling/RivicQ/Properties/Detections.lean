import RivicQ.Cryptoscan.Tokens
import RivicQ.Lib.Stretches

namespace RivicQ.Properties.Detections

open RivicQ.Lib.Bytes RivicQ.Lib.GoStrings RivicQ.Lib.Marks RivicQ.Lib.Occurrences
open RivicQ.Lib.Stretches RivicQ.Cryptoscan.Detect RivicQ.Cryptoscan.Tokens

section Extraction

variable {minLen max : Nat} {out : List String} {cur : Bytes}

def printable (b : UInt8) : Bool := 0x20 ≤ b ∧ b ≤ 0x7e

/-- The runs that are long enough. -/
def longRuns (minLen : Nat) (rs : List (Nat × Bytes)) : List Bytes :=
  (rs.map Prod.snd).filter fun run => minLen ≤ run.length

theorem flush_eq (hmin : 1 ≤ minLen) (pos : Nat) (cur : Bytes) :
    flush minLen out cur = out ++ (longRuns minLen (ending pos cur)).map asciiText := by
  unfold flush longRuns ending
  by_cases hcur : cur = []
  · subst hcur
    rw [if_neg (by rw [List.length_nil]; omega), if_pos rfl]
    simp
  · rw [if_neg hcur]
    by_cases hlong : cur.length ≥ minLen
    · rw [if_pos hlong]
      simp [hlong]
    · rw [if_neg hlong]
      simp [hlong]

theorem length_flush_le (minLen : Nat) (out : List String) (cur : Bytes) :
    (flush minLen out cur).length ≤ out.length + 1 := by
  unfold flush
  split_ifs
  · rw [List.length_append, List.length_singleton]
  · exact Nat.le_succ _

theorem flush_nil (hmin : 1 ≤ minLen) : flush minLen out [] = out :=
  if_neg (by rw [List.length_nil]; omega)

/-- The runs are collected up to the limit, the one that is still being read among them. -/
theorem extractFrom_eq (hmin : 1 ≤ minLen) (data : Bytes) (pos : Nat) (hout : out.length < max) :
    extractFrom minLen max out cur data =
      (out ++ (longRuns minLen (stretchesFrom printable pos cur data)).map asciiText).take max := by
  induction data generalizing out cur pos with
  | nil =>
    rw [extractFrom, stretchesFrom, ← flush_eq hmin]
    exact (List.take_of_length_le (Nat.le_trans (length_flush_le minLen out cur) hout)).symm
  | cons b data ih =>
    rw [extractFrom, stretchesFrom]
    by_cases hb : 0x20 ≤ b ∧ b ≤ 0x7e
    · have hprintable : printable b = true := decide_eq_true hb
      rw [if_pos hb, if_neg (Nat.not_le.mpr hout), if_pos hprintable]
      exact ih (pos + 1) hout
    · have hprintable : ¬ printable b = true := fun h => hb (of_decide_eq_true h)
      have hrest : longRuns minLen (ending pos cur ++ stretchesFrom printable (pos + 1) [] data) =
          longRuns minLen (ending pos cur) ++
            longRuns minLen (stretchesFrom printable (pos + 1) [] data) := by
        rw [longRuns, List.map_append, List.filter_append]
        rfl
      rw [if_neg hb, if_neg hprintable, hrest, List.map_append, ← List.append_assoc,
        ← flush_eq hmin]
      dsimp only
      split_ifs with hfull
      · have hlength := length_flush_le minLen out cur
        rw [flush_nil hmin, List.take_append_of_le_length hfull, List.take_of_length_le (by omega)]
      · exact ih (pos + 1) (Nat.not_le.mp hfull)

/-- The strings are the first ones of the maximal runs that are long enough, in order. -/
theorem extractStrings_eq (data : Bytes) (minLen max : Nat) (hmin : 1 ≤ minLen) (hmax : 1 ≤ max) :
    extractStrings minLen max data =
      ((longRuns minLen (stretches printable data)).take max).map asciiText ∧
    (∀ pos run, (pos, run) ∈ stretches printable data ↔ Maximal printable data pos run) ∧
    (stretches printable data).Pairwise fun x y => x.1 < y.1 := by
  refine ⟨?_, fun pos run => mem_stretches, pairwise_stretches⟩
  rw [extractStrings, if_neg (Nat.not_lt.mpr hmin), extractFrom_eq hmin data 0 hmax,
    List.nil_append, List.map_take]
  rfl

theorem extractStrings_last :
    extractStrings 3 1 (ascii "ab" ++ 0 :: ascii "RSA") =
      ((longRuns 3 (stretches printable (ascii "ab" ++ 0 :: ascii "RSA"))).take 1).map asciiText ∧
    (∀ pos run, (pos, run) ∈ stretches printable (ascii "ab" ++ 0 :: ascii "RSA") ↔
      Maximal printable (ascii "ab" ++ 0 :: ascii "RSA") pos run) ∧
    (stretches printable (ascii "ab" ++ 0 :: ascii "RSA")).Pairwise fun x y => x.1 < y.1 :=
  extractStrings_eq _ 3 1 (by decide) (by decide)

end Extraction

section Tokens

/-- The search ends, however many rounds it is given beyond the length of the text, and finds what
is at the front or behind something else than a letter or a digit. -/
theorem tokenContains_spec (lower m : Bytes) (hne : m ≠ []) :
    ∃ b, tokenContains lower m = some b ∧
      (∀ rounds, lower.length < rounds → searchFrom isAlnumByte lower m rounds 0 = some b) ∧
      (b = true ↔ ∃ pos, m <+: lower.drop pos ∧
        (pos = 0 ∨ (lower[pos - 1]?).any isAlnumByte = false)) := by
  obtain ⟨b, hb, hiff⟩ : ∃ b, tokenContains lower m = some b ∧
      (b = true ↔ ∃ pos, TokenAt isAlnumByte lower m pos) :=
    searchFrom_front hne (Nat.lt_succ_self _)
  refine ⟨b, hb, fun rounds hrounds => ?_, hiff⟩
  obtain ⟨b', hb', hiff'⟩ : ∃ b, searchFrom isAlnumByte lower m rounds 0 = some b ∧
      (b = true ↔ ∃ pos, TokenAt isAlnumByte lower m pos) := searchFrom_front hne hrounds
  rw [hb', Bool.eq_iff_iff.mpr (hiff'.trans hiff.symm)]

/-- The marker of DSA is not found in the name of ECDSA, and found behind it. -/
theorem tokenContains_dsa : ∃ b, tokenContains (ascii "ecdsa dsa") (ascii "dsa") = some b ∧
      (∀ rounds, (ascii "ecdsa dsa").length < rounds →
        searchFrom isAlnumByte (ascii "ecdsa dsa") (ascii "dsa") rounds 0 = some b) ∧
      (b = true ↔ ∃ pos, ascii "dsa" <+: (ascii "ecdsa dsa").drop pos ∧
        (pos = 0 ∨ ((ascii "ecdsa dsa")[pos - 1]?).any isAlnumByte = false)) :=
  tokenContains_spec (ascii "ecdsa dsa") (ascii "dsa") (by decide)

end Tokens

section Surfaces

variable {m : String} {strs : List String}

theorem toLower_eq_newline {c : Char} (h : c.toLower = '\n') : c = '\n' := by
  have hnat := congrArg Char.toNat h
  rw [toNat_toLower] at hnat
  change _ = 10 at hnat
  apply Char.toNat_inj.mp
  change c.toNat = 10
  split_ifs at hnat with hupper
  · omega
  · exact hnat

theorem newline_not_mem_lower (h : '\n' ∉ m.toList) : '\n' ∉ (toLower asciiCase m).toList := by
  rw [toLower, String.toList_ofList]
  intro hmem
  obtain ⟨c, hc, hlower⟩ := List.mem_map.mp hmem
  exact h (toLower_eq_newline hlower ▸ hc)

theorem toLower_ne_empty (h : m ≠ "") : toLower asciiCase m ≠ "" := by
  intro hlower
  have hlist := congrArg String.toList hlower
  rw [toLower, String.toList_ofList] at hlist
  exact h (String.toList_eq_nil_iff.mp (List.map_eq_nil_iff.mp hlist))

/-- The surface is the lowered strings, one on each line. -/
theorem lower_surface (strs : List String) : (newSurface asciiCase strs).lower.toList =
    ['\n'].intercalate (strs.map fun s => (toLower asciiCase s).toList) := by
  rw [newSurface, toLower, String.toList_ofList, String.toList_intercalate]
  refine (map_intercalate asciiCase.lower '\n' (strs.map String.toList)).trans ?_
  rw [List.map_map]
  refine congrArg _ (List.map_congr_left fun s _ => ?_)
  rw [toLower, String.toList_ofList]
  rfl

variable {before : Option Char → Prop}

theorem occurs_surface (hne : m ≠ "") (hline : '\n' ∉ m.toList)
    (hbefore : before none ↔ before (some '\n')) :
    Occurs before (toLower asciiCase m).toList (newSurface asciiCase strs).lower.toList ↔
      ∃ s ∈ strs, Occurs before (toLower asciiCase m).toList (toLower asciiCase s).toList := by
  have hm := mt String.toList_eq_nil_iff.mp (toLower_ne_empty hne)
  rw [lower_surface, occurs_intercalate hm (newline_not_mem_lower hline) hbefore]
  simp only [List.mem_map, exists_exists_and_eq_and]

end Surfaces

section Parts

/-- The parts of a detection. -/
inductive Part where
  | libraries
  | algorithms
  | cryptoAPIs
  | protocols
  | rules

/-- Names, each with the markers that go with it. -/
def paired {F : Type} (name : F → String) (markers : F → List String) (fs : List F) :
    List (String × String) :=
  fs.flatMap fun f => (markers f).map fun m => (name f, m)

/-- The markers that a part of the detection reports, each with the name of its finding. -/
def reported (d : Detection) : Part → List (String × String)
  | .libraries => paired LibraryFinding.library LibraryFinding.markers d.libraries
  | .algorithms => paired AlgorithmFinding.algorithm AlgorithmFinding.markers d.algorithms
  | .cryptoAPIs => paired APIFinding.api APIFinding.markers d.cryptoAPIs
  | .protocols => paired ProtocolFinding.protocol ProtocolFinding.markers d.protocols
  | .rules => paired RuleFinding.id RuleFinding.markers d.rules

/-- The markers that a part looks for, each with the name of its rule. -/
def sought (p : Profile) : Part → List (String × String)
  | .libraries => paired LibraryRule.library LibraryRule.markers p.libraries
  | .algorithms => paired AlgorithmRule.algorithm AlgorithmRule.markers algorithmCatalog
  | .cryptoAPIs => paired APIRule.api APIRule.markers p.cryptoAPIs
  | .protocols => paired ProtocolRule.protocol ProtocolRule.markers p.protocols
  | .rules => paired Rule.id Rule.markers p.rules

/-- A marker occurs in a string in lower case; one of an algorithm occurs as a token. -/
def FoundIn (s m : String) : Part → Prop
  | .algorithms => Occurs (fun c => c.any isAlnum = false) (toLower asciiCase m).toList
      (toLower asciiCase s).toList
  | .libraries | .cryptoAPIs | .protocols | .rules =>
    (toLower asciiCase m).toList <:+: (toLower asciiCase s).toList

variable {p : Profile} {strs strs' : List String}

theorem mem_paired {F : Type} {name : F → String} {markers : F → List String} {fs : List F}
    {x : String × String} :
    x ∈ paired name markers fs ↔ ∃ f ∈ fs, name f = x.1 ∧ x.2 ∈ markers f := by
  simp only [paired, List.mem_flatMap, List.mem_map, Prod.ext_iff]
  grind

/-- What is reported for rules is what is sought by them and found. -/
theorem mem_paired_detectBy {R F : Type} {find : List String → List String} {ok : String → Prop}
    {markers : R → List String} {finding : R → List String → F} {name : F → String}
    {fmarkers : F → List String} {rules : List R} {x : String × String} (rname : R → String)
    (hsub : ∀ ms, find ms ⊆ ms)
    (hok : ∀ rule ∈ rules, ∀ m ∈ markers rule, (m ∈ find (markers rule) ↔ ok m))
    (hname : ∀ r ms, name (finding r ms) = rname r)
    (hmarkers : ∀ r ms, fmarkers (finding r ms) = ms) :
    x ∈ paired name fmarkers (detectBy find markers finding name rules) ↔
      x ∈ paired rname markers rules ∧ ok x.2 := by
  rw [mem_paired, mem_paired]
  constructor
  · rintro ⟨f, hf, hx, hm⟩
    obtain ⟨rule, hrule, -, rfl⟩ := mem_detectBy.mp hf
    rw [hname] at hx
    rw [hmarkers] at hm
    have hmem := hsub _ hm
    exact ⟨⟨rule, hrule, hx, hmem⟩, (hok rule hrule x.2 hmem).mp hm⟩
  · rintro ⟨⟨rule, hrule, hx, hm⟩, hfound⟩
    have hfound := (hok rule hrule x.2 hm).mpr hfound
    refine ⟨_, mem_detectBy.mpr ⟨rule, hrule, List.ne_nil_of_mem hfound, rfl⟩, ?_, ?_⟩
    · rw [hname, hx]
    · rw [hmarkers]
      exact hfound

/-- No marker of the profile has a line break. -/
def OnOneLine (p : Profile) : Prop := ∀ m ∈ p.markers, '\n' ∉ m.toList

instance (p : Profile) : Decidable (OnOneLine p) :=
  inferInstanceAs (Decidable (∀ m ∈ p.markers, '\n' ∉ m.toList))

theorem catalog_onOneLine : ∀ m ∈ catalogMarkers, '\n' ∉ m.toList := by decide

/-- A marker that is not empty occurs in one of the strings. -/
def Found (strs : List String) (part : Part) (m : String) : Prop :=
  m ≠ "" ∧ ∃ s ∈ strs, FoundIn s m part

theorem all_iff {ms : List String} {m : String} (hm : m ∈ ms) (hline : '\n' ∉ m.toList) :
    m ∈ (newSurface asciiCase strs).all asciiCase ms ↔ Found strs .libraries m := by
  rw [Surface.all, List.mem_filter, Bool.and_eq_true, decide_eq_true_eq, contains_iff,
    and_iff_right hm]
  refine and_congr_right fun hne => ?_
  simp only [FoundIn, ← occurs_iff_infix]
  exact occurs_surface hne hline Iff.rfl

theorem allToken_iff {ms : List String} {m : String} (hm : m ∈ ms) (hline : '\n' ∉ m.toList) :
    m ∈ (newSurface asciiCase strs).allToken asciiCase ms ↔ Found strs .algorithms m := by
  rw [Surface.allToken, List.mem_filter, Bool.and_eq_true, decide_eq_true_eq, and_iff_right hm]
  refine and_congr_right fun hne => ?_
  rw [tokenContains_iff (toLower_ne_empty hne)]
  exact occurs_surface hne hline (iff_of_true rfl rfl)

/-- What is reported for rules of the profile is what is sought by them and occurs. -/
theorem mem_paired_all {R F : Type} {markers : R → List String} {finding : R → List String → F}
    {name : F → String} {fmarkers : F → List String} {rules : List R} {x : String × String}
    (h : OnOneLine p) (rname : R → String) (hrules : rules.flatMap markers ⊆ p.markers)
    (hname : ∀ r ms, name (finding r ms) = rname r)
    (hmarkers : ∀ r ms, fmarkers (finding r ms) = ms) :
    x ∈ paired name fmarkers
        (detectBy ((newSurface asciiCase strs).all asciiCase) markers finding name rules) ↔
      x ∈ paired rname markers rules ∧ Found strs .libraries x.2 := by
  refine mem_paired_detectBy rname (fun _ => List.filter_subset_self _) ?_ hname hmarkers
  intro rule hrule m hm
  exact all_iff hm (h m (hrules (List.mem_flatMap.mpr ⟨rule, hrule, hm⟩)))

/-- A part reports the markers of its rules that occur in one of the strings. -/
theorem reported_iff (h : OnOneLine p) (strs : List String) (part : Part) (x : String × String) :
    x ∈ reported (detect asciiCase p strs) part ↔ x ∈ sought p part ∧ Found strs part x.2 := by
  cases part with
  | libraries =>
    change x ∈ paired LibraryFinding.library LibraryFinding.markers
      (detectLibraries asciiCase _ p) ↔ _
    refine mem_paired_all h LibraryRule.library ?_ (fun _ _ => rfl) fun _ _ => rfl
    exact fun m hm => List.mem_append_left _ (List.mem_append_left _ (List.mem_append_left _ hm))
  | algorithms =>
    change x ∈ paired AlgorithmFinding.algorithm AlgorithmFinding.markers
      (detectAlgorithms asciiCase _) ↔ _
    unfold detectAlgorithms
    refine mem_paired_detectBy AlgorithmRule.algorithm (fun _ => List.filter_subset_self _) ?_
      (fun _ _ => rfl) fun _ _ => rfl
    intro rule hrule m hm
    exact allToken_iff hm (catalog_onOneLine m (List.mem_flatMap.mpr ⟨rule, hrule, hm⟩))
  | cryptoAPIs =>
    change x ∈ paired APIFinding.api APIFinding.markers (detectAPIs asciiCase _ p) ↔ _
    refine mem_paired_all h APIRule.api ?_ (fun _ _ => rfl) fun _ _ => rfl
    exact fun m hm => List.mem_append_left _ (List.mem_append_left _ (List.mem_append_right _ hm))
  | protocols =>
    change x ∈ paired ProtocolFinding.protocol ProtocolFinding.markers
      (detectProtocols asciiCase _ p) ↔ _
    refine mem_paired_all h ProtocolRule.protocol ?_ (fun _ _ => rfl) fun _ _ => rfl
    exact fun m hm => List.mem_append_left _ (List.mem_append_right _ hm)
  | rules =>
    change x ∈ paired RuleFinding.id RuleFinding.markers (detectRules asciiCase _ p) ↔ _
    refine mem_paired_all h Rule.id ?_ (fun _ _ => rfl) fun _ _ => rfl
    exact fun m hm => List.mem_append_right _ hm

theorem detect_perm (h : OnOneLine p) (hperm : strs.Perm strs') :
    detect asciiCase p strs = detect asciiCase p strs' := by
  have hfound : ∀ part m, Found strs part m ↔ Found strs' part m := by
    intro part m
    simp only [Found, hperm.mem_iff]
  refine detect_congr (fun m => ?_) fun m => ?_
  · by_cases hm : m ∈ p.markers
    · rw [all_iff hm (h m hm), all_iff hm (h m hm), hfound]
    · exact iff_of_false (fun hall => hm (List.mem_of_mem_filter hall))
        fun hall => hm (List.mem_of_mem_filter hall)
  · by_cases hm : m ∈ catalogMarkers
    · rw [allToken_iff hm (catalog_onOneLine m hm), allToken_iff hm (catalog_onOneLine m hm), hfound]
    · exact iff_of_false (fun hall => hm (List.mem_of_mem_filter hall))
        fun hall => hm (List.mem_of_mem_filter hall)

/-- A detection reports the markers that are not empty and occur in one of the strings, whatever
their order, and one over two lists those of both. -/
theorem detection_compositional (p : Profile) (h : OnOneLine p) (strs : List String) :
    (∀ part, ∀ x, x ∈ reported (detect asciiCase p strs) part ↔
      x ∈ sought p part ∧ Found strs part x.2) ∧
    (∀ strs', strs.Perm strs' → detect asciiCase p strs = detect asciiCase p strs') ∧
    ∀ strs', ∀ part, ∀ x, x ∈ reported (detect asciiCase p (strs ++ strs')) part ↔
      x ∈ reported (detect asciiCase p strs) part ∨ x ∈ reported (detect asciiCase p strs') part := by
  refine ⟨reported_iff h strs, fun strs' hperm => detect_perm h hperm, fun strs' part x => ?_⟩
  have happend : Found (strs ++ strs') part x.2 ↔ Found strs part x.2 ∨ Found strs' part x.2 := by
    simp only [Found, List.mem_append, or_and_right, exists_or, and_or_left]
  rw [reported_iff h, reported_iff h, reported_iff h, happend, and_or_left]

def tlsProfile : Profile :=
  { libraries := [{ library := "OpenSSL", markers := ["OpenSSL 3"], algorithms := [] }] }

theorem detection_compositional_tls :
    (∀ part, ∀ x, x ∈ reported (detect asciiCase tlsProfile ["openssl", "3.0"]) part ↔
      x ∈ sought tlsProfile part ∧ Found ["openssl", "3.0"] part x.2) ∧
    (∀ strs', ["openssl", "3.0"].Perm strs' →
      detect asciiCase tlsProfile ["openssl", "3.0"] = detect asciiCase tlsProfile strs') ∧
    ∀ strs', ∀ part, ∀ x, x ∈ reported (detect asciiCase tlsProfile (["openssl", "3.0"] ++ strs')) part ↔
      x ∈ reported (detect asciiCase tlsProfile ["openssl", "3.0"]) part ∨
        x ∈ reported (detect asciiCase tlsProfile strs') part :=
  detection_compositional tlsProfile (by decide) ["openssl", "3.0"]

def blankProfile : Profile :=
  { libraries := [{ library := "none", markers := [""], algorithms := [] }] }

/-- The empty marker is in every string, and never reported. -/
theorem empty_marker_not_reported : ¬ ∀ (p : Profile) (_ : OnOneLine p) (strs : List String) (part : Part)
    (x : String × String), x ∈ sought p part →
    (x ∈ reported (detect asciiCase p strs) part ↔ ∃ s ∈ strs, FoundIn s x.2 part) := by
  intro h
  have honeLine : OnOneLine blankProfile := by decide
  have hmem := (h blankProfile honeLine ["tls"] .libraries ("none", "") (by decide)).mpr
    ⟨"tls", by decide, List.nil_infix⟩
  exact ((reported_iff honeLine ["tls"] .libraries ("none", "")).mp hmem).2.1 rfl

end Parts

end RivicQ.Properties.Detections
