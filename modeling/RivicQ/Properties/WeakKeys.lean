import RivicQ.Properties.Partition
import RivicQ.Properties.Verdicts
import RivicQ.Shared.ContentScan

namespace RivicQ.Properties.WeakKeys

open RivicQ.Lib.GoStrings RivicQ.Lib.Bytes RivicQ.Lib.Casing RivicQ.Lib.HostPorts
open RivicQ.Lib.Regexes RivicQ.Lib.Runes RivicQ.Lib.Runes.Pattern
open RivicQ.Lib.Regexes.Regex (seqs alts many plus)
open RivicQ.Intelligence.Findings RivicQ.Intelligence.Policies RivicQ.Intelligence.Contents
open RivicQ.Shared.GitHubScans RivicQ.Shared.ContentScan RivicQ.Shared.ContentIntelligence
open RivicQ.Properties.Verdicts RivicQ.Properties.Partition

/-- The recognised forms of a call that generates an RSA key, with any size. -/
def callRe : Pattern :=
  alts [
    seqs [foldText "GenerateKey(", .star false (noneOf ")"), lit ',', many blank,
      .group 1 (plus (sym Char.isDigit)), many blank, lit ')'],
    seqs [foldText "RSA.generate(", .group 1 (plus (sym Char.isDigit)), lit ')']]

def callSize (w : Way Rune) : Nat :=
  Nat.ofDigitChars 10 (chars ((w.groups.lookup 1).getD [])) 0

/-- Somewhere in a content a key of this size is generated. -/
def Generates (content : Bytes) (n : Nat) : Prop :=
  ∃ before rest, runes content = before ++ rest ∧
    ∃ w ∈ ways callRe before.getLast? rest, callSize w = n

/-- The scan and its gate see a short RSA key in the file. -/
def Gated (pl : Platform) (findings : List Finding) (path : String) : Prop :=
  ∃ f ∈ findings, f.algorithm = "RSA" ∧ f.location = path ∧ 0 < f.keyLength ∧ f.keyLength < 2048 ∧
    (excludedPath pl path = false →
      (evaluate pl findings (some (defaultPolicies pl))).decision = "BLOCK")

/-- The first call with a size among those looked for has 1024. -/
def FirstShort (content : Bytes) : Prop :=
  ∃ m, find rsaKeyBitsRe (runes content) = some m ∧ (chars (m.group 1) = "1024".toList ∨
    m.group 1 = [] ∧ chars (m.group 2) = "1024".toList)

/-- The evidence that is shown of a match. -/
def shown (m : Match Rune) : String :=
  String.ofList (chars (runes (maskSecret (RivicQ.Lib.ByteText.trimSpace
    (unread m.text ++ (unread m.after).take 40)))))

/-- A rule for RSA matches in the file, and 1024 is the first size that is read in it, or no
size is and 1024 stands in what is shown of the match or in the path. -/
def Seen (cm : CaseMap) (file : RepoFile) : Prop :=
  ∃ rule ∈ cryptoRules, rule.algorithm = "RSA" ∧ ∃ m, find rule.re (runes file.content) = some m ∧
    (FirstShort file.content ∨ find rsaKeyBitsRe (runes file.content) = none ∧
      contains (toUpper cm (shown m ++ " " ++ ("RSA" ++ " usage in " ++ file.path) ++ " " ++ "RSA"))
        "1024" = true)

section Sizes

def bitTexts : List String := ["1024", "2048", "3072", "4096"]

variable {prev : Option Rune} {rest text : List Rune} {w : Way Rune} {m : Match Rune}

theorem ungrouped_rsaKeyBits : Ungrouped rsaKeyBits := by
  apply ungrouped_alts
  intro r hr
  obtain ⟨s, -, rfl⟩ := List.mem_map.mp hr
  exact ungrouped_text s

theorem chars_of_rsaKeyBits (hw : w ∈ ways rsaKeyBits prev rest) :
    ∃ s ∈ bitTexts, chars w.text = s.toList := by
  obtain ⟨r, hr, hw⟩ := mem_ways_alts hw
  obtain ⟨s, hs, rfl⟩ := List.mem_map.mp hr
  exact ⟨s, hs, chars_of_text hw⟩

/-- A match of the expression for sizes captures one of them. -/
theorem groups_of_rsaKeyBitsRe (hw : w ∈ ways rsaKeyBitsRe prev rest) :
    ∃ s ∈ bitTexts, ∃ d, chars d = s.toList ∧ (w.groups = [(1, d)] ∨ w.groups = [(2, d)]) := by
  have hblank : Ungrouped (many blank) := trivial
  obtain hw | hw := mem_ways_alt.mp hw
  · have hfront : ∀ r ∈ [foldText "GenerateKey(", .star false (noneOf ")"), lit ',', many blank],
        Ungrouped r := by
      simp only [List.forall_mem_cons]
      exact ⟨ungrouped_foldText _, trivial, trivial, hblank, List.forall_mem_nil _⟩
    have hback : ∀ r ∈ [many blank, lit ')'], Ungrouped r := by
      simp only [List.forall_mem_cons]
      exact ⟨hblank, trivial, List.forall_mem_nil _⟩
    obtain ⟨_, _, v, hv, hgroups⟩ := groups_seqs hfront ungrouped_rsaKeyBits hback hw
    obtain ⟨s, hs, hchars⟩ := chars_of_rsaKeyBits hv
    exact ⟨s, hs, v.text, hchars, .inl hgroups⟩
  · have hfront : ∀ r ∈ [foldText "RSA.generate("], Ungrouped r := by
      simp only [List.forall_mem_cons]
      exact ⟨ungrouped_foldText _, List.forall_mem_nil _⟩
    have hback : ∀ r ∈ [lit ')'], Ungrouped r := by
      simp only [List.forall_mem_cons]
      exact ⟨trivial, List.forall_mem_nil _⟩
    obtain ⟨_, _, v, hv, hgroups⟩ := groups_seqs hfront ungrouped_rsaKeyBits hback hw
    obtain ⟨s, hs, hchars⟩ := chars_of_rsaKeyBits hv
    exact ⟨s, hs, v.text, hchars, .inr hgroups⟩

theorem captured (h : find rsaKeyBitsRe text = some m) : ∃ s ∈ bitTexts, ∃ d,
    chars d = s.toList ∧ (m.group 1 = d ∨ m.group 1 = [] ∧ m.group 2 = d) := by
  obtain ⟨_, _, w, hw, hgroups⟩ := findFrom_mem h
  obtain ⟨s, hs, d, hd, hw | hw⟩ := groups_of_rsaKeyBitsRe hw
  · exact ⟨s, hs, d, hd, .inl (by rw [Match.group, hgroups, hw]; rfl)⟩
  · exact ⟨s, hs, d, hd, .inr ⟨by rw [Match.group, hgroups, hw]; rfl,
      by rw [Match.group, hgroups, hw]; rfl⟩⟩

/-- The number of one of the sizes. -/
theorem atoi_bitTexts {s : String} (hs : s ∈ bitTexts) :
    (atoi s).2 = true ∧ ((atoi s).1.toNat = 1024 ∧ s = "1024" ∨
      2048 ≤ (atoi s).1.toNat ∧ s ≠ "1024") := by
  have hall : bitTexts.all fun s => (atoi s).2 && ((atoi s).1.toNat == 1024 && s == "1024" ||
      decide (2048 ≤ (atoi s).1.toNat) && s != "1024") := by decide
  have h := List.all_eq_true.mp hall s hs
  simpa only [Bool.and_eq_true, Bool.or_eq_true, beq_iff_eq, bne_iff_ne, decide_eq_true_eq] using h

theorem firstNumber_cons {g : List Rune} {gs : List (List Rune)} {s : String}
    (hg : chars g = s.toList) (hs : (atoi s).2 = true) :
    firstNumber (g :: gs) = (atoi s).1.toNat := by
  unfold firstNumber
  rw [List.findSome?_cons, hg, String.ofList_toList]
  cases h : atoi s with
  | mk n ok =>
    rw [h] at hs
    cases hs
    rfl

theorem firstNumber_nil_cons (gs : List (List Rune)) : firstNumber ([] :: gs) = firstNumber gs := by
  have hempty : atoi (String.ofList (chars [])) = (0, false) := by decide
  unfold firstNumber
  rw [List.findSome?_cons, hempty]

end Sizes

section KeyLengths

variable {cm : CaseMap} {content : Bytes} {m : Match Rune}

theorem extractKeyLength_none (h : find rsaKeyBitsRe (runes content) = none) :
    extractKeyLength cm "RSA" content = 0 := by
  unfold extractKeyLength
  rw [h]
  split <;> rfl

theorem extractKeyLength_some (h : find rsaKeyBitsRe (runes content) = some m) :
    extractKeyLength cm "RSA" content = firstNumber [m.group 1, m.group 2] := by
  have hfold : equalFold cm "RSA" "RSA" = true := beq_self_eq_true _
  rw [extractKeyLength, hfold, Bool.not_true, if_neg Bool.false_ne_true, h]

/-- What is read off the first call. -/
theorem extractKeyLength_cases (h : find rsaKeyBitsRe (runes content) = some m) :
    FirstShort content ∧ extractKeyLength cm "RSA" content = 1024 ∨
      ¬ FirstShort content ∧ 2048 ≤ extractKeyLength cm "RSA" content := by
  obtain ⟨s, hs, d, hd, hgroup⟩ := captured h
  obtain ⟨hok, hnumber⟩ := atoi_bitTexts hs
  have hlength : extractKeyLength cm "RSA" content = (atoi s).1.toNat := by
    rw [extractKeyLength_some h]
    obtain rfl | ⟨hnil, rfl⟩ := hgroup
    · exact firstNumber_cons hd hok
    · rw [hnil, firstNumber_nil_cons]
      exact firstNumber_cons hd hok
  have hne : s.toList ≠ [] := by
    intro hnil
    have hall : bitTexts.all fun s => s.toList ≠ [] := by decide
    exact of_decide_eq_true (List.all_eq_true.mp hall s hs) hnil
  have hshort : FirstShort content ↔ s = "1024" := by
    constructor
    · rintro ⟨m', hm', hsize⟩
      obtain rfl := Option.some.inj (h.symm.trans hm')
      obtain rfl | ⟨hnil, rfl⟩ := hgroup
      · obtain hsize | ⟨hnil, -⟩ := hsize
        · exact String.toList_injective (hd.symm.trans hsize)
        · exact absurd (hd.symm.trans (congrArg chars hnil)) hne
      · obtain hsize | ⟨-, hsize⟩ := hsize
        · rw [hnil] at hsize
          exact absurd hsize (by decide)
        · exact String.toList_injective (hd.symm.trans hsize)
    · rintro rfl
      obtain rfl | ⟨hnil, rfl⟩ := hgroup
      · exact ⟨m, h, .inl hd⟩
      · exact ⟨m, h, .inr ⟨hnil, hd⟩⟩
  rw [hshort, hlength]
  obtain ⟨hn, hs⟩ | ⟨hn, hs⟩ := hnumber
  · exact .inl ⟨hs, hn⟩
  · exact .inr ⟨hs, hn⟩

end KeyLengths

section Pipeline

variable {u : UnicodeCase} {sep : Char} {unmarshal : Unmarshal} {digest : Digest}
variable {sha : List UInt8 → String} {now : Nat → Time} {t : Time} {file : RepoFile}
variable {files loaded : List RepoFile} {rule : CryptoRule} {m : Match Rune} {f : Detail}
variable {id repo path : String} {demo : Bool}

theorem cryptoFinding_shown (h : cryptoFinding u.toCaseMap file rule = some f) :
    ∃ m, find rule.re (runes file.content) = some m ∧
      (toContentFinding f).evidence = shown m ∧
      f.description = rule.algorithm ++ " usage in " ++ file.path := by
  unfold cryptoFinding at h
  split at h
  · cases h
  · split at h
    · cases h
    · next m hm =>
      obtain rfl := Option.some.inj h
      exact ⟨m, hm, rfl, rfl⟩

/-- The key length that the policies see of a finding for RSA. -/
theorem short_iff (hrsa : rule.algorithm = "RSA")
    (hf : cryptoFinding u.toCaseMap file rule = some f) :
    0 < (fromContent u.toCaseMap sha t
        (toContentFinding (stamp u.toCaseMap digest f))).keyLength ∧
      (fromContent u.toCaseMap sha t
        (toContentFinding (stamp u.toCaseMap digest f))).keyLength < 2048 ↔
    ∃ m, find rule.re (runes file.content) = some m ∧
      (FirstShort file.content ∨ find rsaKeyBitsRe (runes file.content) = none ∧
        contains (toUpper u.toCaseMap (shown m ++ " " ++ ("RSA" ++ " usage in " ++ file.path) ++
          " " ++ "RSA")) "1024" = true) := by
  obtain ⟨m, hm, hevidence, hdescription⟩ := cryptoFinding_shown hf
  obtain ⟨-, -, -, -, -, halgorithm, -, hlength⟩ := cryptoFinding_eq_some hf
  rw [hrsa] at hdescription halgorithm hlength
  have hread : (toContentFinding (stamp u.toCaseMap digest f)).keyLength =
      extractKeyLength u.toCaseMap "RSA" file.content := hlength
  have hexists : ∀ P : Match Rune → Prop,
      (∃ m, find rule.re (runes file.content) = some m ∧ P m) ↔ P m := by
    intro P
    rw [hm]
    constructor
    · rintro ⟨m', hm', hP⟩
      exact Option.some.inj hm' ▸ hP
    · exact fun hP => ⟨m, rfl, hP⟩
  rw [hexists, fromContent_keyLength, hread]
  cases hfind : find rsaKeyBitsRe (runes file.content) with
  | none =>
    have hnot : ¬ FirstShort file.content := by
      rintro ⟨m', hm', -⟩
      rw [hfind] at hm'
      cases hm'
    rw [extractKeyLength_none hfind, if_pos rfl, or_iff_right hnot, and_iff_right rfl]
    have hevidence : (toContentFinding (stamp u.toCaseMap digest f)).evidence = shown m := hevidence
    have hdescription : (toContentFinding (stamp u.toCaseMap digest f)).description =
      "RSA" ++ " usage in " ++ file.path := hdescription
    have halgorithm : (toContentFinding (stamp u.toCaseMap digest f)).algorithm = "RSA" :=
      halgorithm
    rw [hevidence, hdescription, halgorithm, ← parseBits_short_iff]
    omega
  | some m' =>
    have hnone : ¬ (some m' = none ∧ contains (toUpper u.toCaseMap (shown m ++ " " ++
        ("RSA" ++ " usage in " ++ file.path) ++ " " ++ "RSA")) "1024" = true) := fun h => by
      cases h.1
    rw [or_iff_left hnone]
    obtain ⟨hshort, hn⟩ | ⟨hshort, hn⟩ := @extractKeyLength_cases u.toCaseMap _ _ hfind
    · refine iff_of_true ?_ hshort
      rw [hn, if_neg (by decide)]
      decide
    · refine iff_of_false ?_ hshort
      rw [if_neg (by omega)]
      omega

/-- The findings for RSA are those of the rules for it. -/
theorem rsa_of_mem (h : f ∈ fileFindings u.toCaseMap unmarshal file) (hrsa : f.algorithm = "RSA") :
    ∃ rule ∈ cryptoRules, rule.algorithm = "RSA" ∧
      cryptoFinding u.toCaseMap file rule = some f := by
  obtain ⟨rule, hrule, hf⟩ | ⟨rule, hrule, hf⟩ | hf | ⟨d, hd, -, -, halgorithm⟩ :=
    fileFindings_cases h
  · obtain ⟨-, -, -, -, -, halgorithm, -⟩ := cryptoFinding_eq_some hf
    exact ⟨rule, hrule, halgorithm.symm.trans hrsa, hf⟩
  · obtain ⟨-, -, -, -, halgorithm, -⟩ := secretFinding_eq_some hf
    have hall : secretRules.all fun rule => rule.kind ≠ "RSA" := by decide
    exact absurd (halgorithm.symm.trans hrsa)
      (of_decide_eq_true (List.all_eq_true.mp hall rule hrule))
  · obtain ⟨deps, -, e, -, he⟩ := mem_manifest hf
    have hrow : f.algorithm = "lodash" := congrArg (·.2.2.1) (scaAdvisory_dependency he).2.2.1
    exact absurd (hrow.symm.trans hrsa) (by decide)
  · have hall : markedDetails.all fun d => d.algorithm ≠ "RSA" := by decide
    exact absurd (halgorithm.symm.trans hrsa) (of_decide_eq_true (List.all_eq_true.mp hall d hd))

/-- A short RSA key is refused. -/
theorem blocks_short {fs : List Finding} {g : Finding} (hg : g ∈ fs) (hrsa : g.algorithm = "RSA")
    (hpos : 0 < g.keyLength) (hshort : g.keyLength < 2048)
    (hpath : excludedPath ⟨u.toCaseMap, sep⟩ g.location = false) :
    (evaluate ⟨u.toCaseMap, sep⟩ fs (some (defaultPolicies ⟨u.toCaseMap, sep⟩))).decision =
      "BLOCK" := by
  have hname : toUpper u.toCaseMap (g.algorithm ++ g.evidence) =
      "RSA" ++ toUpper u.toCaseMap g.evidence := by
    have hupper : toUpper u.toCaseMap "RSA" = "RSA" := toUpper_ascii u (by decide)
    rw [hrsa, toUpper, String.toList_append, List.map_append, String.ofList_append, ← toUpper,
      ← toUpper, hupper]
  have hmatch : matchRSA ⟨u.toCaseMap, sep⟩ g = true := by
    have hcontains : contains ("RSA" ++ toUpper u.toCaseMap g.evidence) "RSA" = true := by
      apply decide_eq_true
      rw [String.toList_append]
      exact (List.prefix_append _ _).isInfix
    rw [matchRSA, hname, hcontains]
    simp only [gt_iff_lt, hpos, hshort, decide_true, Bool.and_self]
  exact blocks_iff.mpr ⟨g, hg, hpath, _, List.mem_cons_self, rfl, hmatch⟩

theorem gated_iff : Gated ⟨u.toCaseMap, sep⟩ (contentFindings u.toCaseMap sha now
      (analyzeRepositoryFiles (contentRules u.toCaseMap unmarshal digest loaded) id repo files demo))
      path ↔
    ∃ file ∈ files, file.path = path ∧ isDocumentationPath u.toCaseMap file.path = false ∧
      Seen u.toCaseMap file := by
  constructor
  · rintro ⟨g, hg, hrsa, hpath, hpos, hlt, -⟩
    obtain ⟨n, y, hy, rfl⟩ := mem_contentFindings.mp hg
    obtain ⟨d, hd, rfl⟩ := List.mem_map.mp (List.mem_of_getElem? hy)
    obtain ⟨file, hfile, f, hf, rfl⟩ := mem_detect.mp hd
    obtain ⟨rule, hrule, hralgorithm, hfound⟩ := rsa_of_mem hf hrsa
    obtain ⟨hdoc, -, hfpath, -⟩ := cryptoFinding_eq_some hfound
    exact ⟨file, hfile, hfpath.symm.trans hpath, hdoc, rule, hrule, hralgorithm,
      (short_iff hralgorithm hfound).mp ⟨hpos, hlt⟩⟩
  · rintro ⟨file, hfile, rfl, hdoc, rule, hrule, hralgorithm, m, hm, hseen⟩
    obtain ⟨f, hfound⟩ : ∃ f, cryptoFinding u.toCaseMap file rule = some f := by
      apply Option.isSome_iff_exists.mp
      rw [cryptoFinding, hdoc, if_neg Bool.false_ne_true, hm, Option.isSome_some]
    obtain ⟨-, -, hfpath, -, -, halgorithm, -⟩ := cryptoFinding_eq_some hfound
    have hmem : stamp u.toCaseMap digest f ∈ detect u.toCaseMap unmarshal digest files :=
      mem_detect.mpr ⟨file, hfile, f, mem_fileFindings.mpr (.inl ⟨rule, hrule, hfound⟩), rfl⟩
    obtain ⟨n, hn⟩ := List.mem_iff_getElem?.mp (List.mem_map_of_mem
      (f := fun detail => (⟨detail, demo⟩ : GHFinding Detail)) hmem)
    obtain ⟨hpos, hlt⟩ := (@short_iff u digest sha (now n) file rule f hralgorithm hfound).mpr
      ⟨m, hm, hseen⟩
    have hg : fromContent u.toCaseMap sha (now n)
        (toContentFinding (stamp u.toCaseMap digest f)) ∈ contentFindings u.toCaseMap sha now
          (analyzeRepositoryFiles (contentRules u.toCaseMap unmarshal digest loaded) id repo files
            demo) := mem_contentFindings.mpr ⟨n, _, hn, rfl⟩
    refine ⟨_, hg, halgorithm.trans hralgorithm, hfpath, hpos, hlt, fun hout => ?_⟩
    refine blocks_short hg (halgorithm.trans hralgorithm) hpos hlt ?_
    change excludedPath _ f.filePath = false
    rwa [hfpath]

/-- A short RSA key in a file of code is gated exactly if the first size that is read in the
file is 1024, or none is read and 1024 is seen next to a match or in the path. -/
theorem weak_keys_gated_iff (u : UnicodeCase) (sep : Char) (unmarshal : Unmarshal)
    (digest : Digest) (sha : List UInt8 → String) (now : Nat → Time) (loaded : List RepoFile)
    (id repo : String) (demo : Bool) (files : List RepoFile) {file : RepoFile}
    (hcode : isDocumentationPath u.toCaseMap file.path = false) :
    ((∃ n < 2048, Generates file.content n) →
      Gated ⟨u.toCaseMap, sep⟩ (contentFindings u.toCaseMap sha now (analyzeRepositoryFiles
        (contentRules u.toCaseMap unmarshal digest loaded) id repo files demo)) file.path) ↔
    ((∃ n < 2048, Generates file.content n) →
      ∃ other ∈ files, other.path = file.path ∧ Seen u.toCaseMap other) := by
  rw [gated_iff]
  apply imp_congr_right
  intro _
  constructor
  · rintro ⟨other, hother, hpath, -, hseen⟩
    exact ⟨other, hother, hpath, hseen⟩
  · rintro ⟨other, hother, hpath, hseen⟩
    exact ⟨other, hother, hpath, hpath ▸ hcode, hseen⟩

end Pipeline

def sampleScan (file : RepoFile) : List Finding :=
  contentFindings asciiTables.toCaseMap (fun _ => "") (fun _ => 0) (analyzeRepositoryFiles
    (contentRules asciiTables.toCaseMap (fun _ => none) id []) "" "acme/app" [file] false)

/-- A key of 1024 bits is generated. -/
def short : RepoFile where
  path := "keys.go"
  content := ascii "rsa.GenerateKey(rand.Reader, 1024)"

theorem short_seen : Seen asciiTables.toCaseMap short := by
  have hfirst : (find rsaKeyBitsRe (runes short.content)).any
      (fun m => chars (m.group 1) == "1024".toList) = true := by decide
  have hrule : cryptoRules.any (fun rule => rule.algorithm == "RSA" &&
      (find rule.re (runes short.content)).isSome) = true := by decide
  obtain ⟨m, hm, hsize⟩ := (Option.any_eq_true _ _).mp hfirst
  obtain ⟨rule, hrule, hmatch⟩ := List.any_eq_true.mp hrule
  obtain ⟨hrsa, hfound⟩ := Bool.and_eq_true_iff.mp hmatch
  obtain ⟨m', hm'⟩ := Option.isSome_iff_exists.mp hfound
  exact ⟨rule, hrule, beq_iff_eq.mp hrsa, m', hm', .inl ⟨m, hm, .inl (beq_iff_eq.mp hsize)⟩⟩

theorem short_generated : Generates short.content 1024 := by
  have hways : (ways callRe (((runes short.content).take 4).getLast?)
      ((runes short.content).drop 4)).any (fun w => callSize w == 1024) = true := by decide
  obtain ⟨w, hw, hsize⟩ := List.any_eq_true.mp hways
  exact ⟨_, _, (List.take_append_drop 4 _).symm, w, hw, beq_iff_eq.mp hsize⟩

theorem short_gated : Gated ⟨asciiTables.toCaseMap, '/'⟩ (sampleScan short) "keys.go" :=
  (weak_keys_gated_iff asciiTables '/' (fun _ => none) id (fun _ => "") (fun _ => 0) [] ""
    "acme/app" false [short] (by decide)).mpr
      (fun _ => ⟨short, List.mem_cons_self, rfl, short_seen⟩) ⟨1024, by decide, short_generated⟩

/-- A key of 512 bits is generated. -/
def shorter : RepoFile where
  path := "keys.go"
  content := ascii "rsa.GenerateKey(rand.Reader, 512)"

theorem shorter_generated : Generates shorter.content 512 := by
  have hways : (ways callRe (((runes shorter.content).take 4).getLast?)
      ((runes shorter.content).drop 4)).any (fun w => callSize w == 512) = true := by decide
  obtain ⟨w, hw, hsize⟩ := List.any_eq_true.mp hways
  exact ⟨_, _, (List.take_append_drop 4 _).symm, w, hw, beq_iff_eq.mp hsize⟩

theorem shorter_not_seen : ¬ Seen asciiTables.toCaseMap shorter := by
  have hnone : (find rsaKeyBitsRe (runes shorter.content)).isNone = true := by decide
  have hhidden : cryptoRules.all (fun rule => (find rule.re (runes shorter.content)).all fun m =>
      !contains (toUpper asciiTables.toCaseMap (shown m ++ " " ++
        ("RSA" ++ " usage in " ++ shorter.path) ++ " " ++ "RSA")) "1024") = true := by decide
  rw [Option.isNone_iff_eq_none] at hnone
  rintro ⟨rule, hrule, -, m, hm, ⟨m', hm', -⟩ | ⟨-, hseen⟩⟩
  · rw [hnone] at hm'
    cases hm'
  · have h := List.all_eq_true.mp hhidden rule hrule
    rw [hm, Option.all_some, hseen] at h
    cases h

theorem shorter_only_rsa : (fileFindings asciiTables.toCaseMap (fun _ => none) shorter).all
    (fun f => f.algorithm == "RSA") = true := by decide

theorem shorter_passes : (∃ n < 2048, Generates shorter.content n) ∧
    ¬ ∃ f ∈ sampleScan shorter, 0 < f.keyLength ∧ f.keyLength < 2048 := by
  refine ⟨⟨512, by decide, shorter_generated⟩, ?_⟩
  rintro ⟨g, hg, hpos, hlt⟩
  obtain ⟨n, y, hy, rfl⟩ := mem_contentFindings.mp hg
  obtain ⟨d, hd, rfl⟩ := List.mem_map.mp (List.mem_of_getElem? hy)
  obtain ⟨file, hfile, f, hf, rfl⟩ := mem_detect.mp hd
  obtain rfl := List.mem_singleton.mp hfile
  have hrsa : f.algorithm = "RSA" := beq_iff_eq.mp (List.all_eq_true.mp shorter_only_rsa f hf)
  obtain ⟨rule, hrule, hralgorithm, hfound⟩ := rsa_of_mem hf hrsa
  exact shorter_not_seen ⟨rule, hrule, hralgorithm,
    (short_iff hralgorithm hfound).mp ⟨hpos, hlt⟩⟩

end RivicQ.Properties.WeakKeys
