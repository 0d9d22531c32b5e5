import RivicQ.Discovery.Manifests
import RivicQ.Lib.GoModFiles
import RivicQ.Shared.GitHubScans

namespace RivicQ.Properties.GoMods

open RivicQ.Lib.GoStrings RivicQ.Lib.Fields RivicQ.Lib.Projections RivicQ.Lib.Readers
open RivicQ.Lib.GoModFiles
open RivicQ.Discovery.Manifests (SBOMComponent SBOMComponent.library)
open RivicQ.Shared.GoMods (GHComponent)

/-- A line without the white space around it. -/
def shown (l : Line) : String := trimSpace (String.ofList l.text)

/-- The pair that the first two words of a line are. -/
def firstTwo : List (List Char) → List (String × String)
  | p :: v :: _ => [(String.ofList p, String.ofList v)]
  | _ => []

def discoveredLine (inRequire : Bool) (l : Line) : List (String × String) × Bool :=
  ((Discovery.Manifests.goModLine inRequire (String.ofList l.text)).1.filterMap
      SBOMComponent.library,
    (Discovery.Manifests.goModLine inRequire (String.ofList l.text)).2)

def GHComponent.pair (c : GHComponent) : String × String := (c.name, c.version)

def scannedLine (inBlock : Bool) (l : Line) : List (String × String) × Bool :=
  ((Shared.GoMods.goModLine inBlock (String.ofList l.text)).1.map GHComponent.pair,
    (Shared.GoMods.goModLine inBlock (String.ofList l.text)).2)

variable {l : Line} {s : String} {flag : Bool}

section Lines

theorem words_shown (l : Line) : words (shown l).toList = words l.text := by
  rw [shown, trimSpace, String.toList_ofList, String.toList_ofList, words_trimRunes]

theorem fields_shown (l : Line) : fields (shown l) = (words l.text).map String.ofList := by
  rw [fields, words_shown]

theorem words_of_require (h : hasPrefix s "require " = true) :
    ∃ rest, words s.toList = keyword :: rest := by
  obtain ⟨rest, hrest⟩ := of_decide_eq_true h
  rw [← hrest]
  exact ⟨words rest, words_append keyword_ne keyword_space (by decide) rest⟩

theorem words_of_block (h : hasPrefix s "require (" = true) :
    ∃ w rest, words s.toList = keyword :: ('(' :: w) :: rest := by
  obtain ⟨rest, hrest⟩ := of_decide_eq_true h
  have hwords := words_append keyword_ne keyword_space (c := ' ') (by decide) ('(' :: rest)
  rw [words_takeWhile (by decide), List.takeWhile_cons_of_pos (by decide)] at hwords
  exact ⟨_, _, hrest ▸ hwords⟩

theorem words_of_slashes (h : hasPrefix s "//" = true) :
    ∃ w rest, words s.toList = ('/' :: '/' :: w) :: rest := by
  obtain ⟨rest, hrest⟩ := of_decide_eq_true h
  rw [← hrest]
  exact words_comment rest

theorem ofList_trimSuffix {w : List Char} (h : ∀ c ∈ w, isSpace c = false) :
    trimSuffix (String.ofList w) "// indirect" = String.ofList w := by
  rw [trimSuffix, if_neg]
  intro hsuffix
  have hmem : ' ' ∈ (String.ofList w).toList :=
    (of_decide_eq_true hsuffix).subset (by decide)
  rw [String.toList_ofList] at hmem
  exact absurd (h ' ' hmem) (by decide)

theorem library_language {p : Bool} {c : SBOMComponent} (h : c.type = "language") :
    (if p then [c] else []).filterMap SBOMComponent.library = [] := by
  cases p with
  | false => rfl
  | true =>
    rw [if_pos rfl, List.filterMap_cons, SBOMComponent.library, h]
    rfl

theorem discoveredLine_eq (hopen : shown l ≠ "require (") (hclose : flag = true → shown l ≠ ")") :
    discoveredLine flag l = (if flag then firstTwo (words l.text) else [], flag) := by
  have hfields := fields_shown l
  rw [shown] at hopen hclose hfields
  simp only [discoveredLine, Discovery.Manifests.goModLine]
  rw [if_neg hopen, if_neg fun h => hclose h.1 h.2, List.filterMap_append, library_language rfl,
    List.append_nil, hfields]
  refine congrArg (·, flag) ?_
  cases flag with
  | false => rfl
  | true =>
    have hsuffix : ∀ w ∈ words l.text,
        trimSuffix (String.ofList w) "// indirect" = String.ofList w := fun w hw =>
      ofList_trimSuffix (mem_words hw).2
    cases hwords : words l.text with
    | nil => rfl
    | cons p rest =>
      cases rest with
      | nil => rfl
      | cons v rest =>
        rw [hwords] at hsuffix
        have hv := hsuffix v (List.mem_cons_of_mem p List.mem_cons_self)
        simp only [if_true, List.map_cons, hv, firstTwo]
        rfl

theorem discoveredLine_outside (h : shown l ≠ "require (") :
    discoveredLine false l = ([], false) :=
  discoveredLine_eq h fun hflag => absurd hflag Bool.false_ne_true

theorem discoveredLine_open (h : shown l = "require (") : discoveredLine flag l = ([], true) := by
  rw [shown] at h
  simp only [discoveredLine, Discovery.Manifests.goModLine]
  rw [if_pos h]
  rfl

theorem discoveredLine_close (h : shown l = ")") : discoveredLine true l = ([], false) := by
  rw [shown] at h
  simp only [discoveredLine, Discovery.Manifests.goModLine]
  rw [h, if_neg (by decide), if_pos ⟨trivial, rfl⟩]
  rfl

theorem scannedLine_eq (hopen : ¬ hasPrefix (shown l) "require (")
    (hclose : flag = true → shown l ≠ ")") :
    scannedLine flag l =
      (if flag then if shown l ≠ "" ∧ ¬ hasPrefix (shown l) "//" then firstTwo (words l.text) else []
        else if hasPrefix (shown l) "require " then firstTwo (words l.text).tail else [], flag) := by
  have hfields := fields_shown l
  rw [shown] at hopen hclose hfields ⊢
  simp only [scannedLine, Shared.GoMods.goModLine]
  rw [if_neg hopen, if_neg fun h => hclose h.1 h.2, List.map_append, hfields]
  refine congrArg (·, flag) ?_
  cases flag with
  | false =>
    simp only [Bool.false_eq_true, not_false_eq_true, and_true, false_and, if_false, List.map_nil,
      List.append_nil]
    split_ifs with hsingle
    · cases words l.text with
      | nil => rfl
      | cons k rest =>
        rcases rest with - | ⟨p, - | ⟨v, rest⟩⟩ <;> rfl
    · rfl
  | true =>
    simp only [not_true_eq_false, and_false, if_false, true_and, List.map_nil, List.nil_append,
      if_true]
    split_ifs with hinside
    · rcases words l.text with - | ⟨p, - | ⟨v, rest⟩⟩ <;> rfl
    · rfl

/-- A line of another directive does not begin with the keyword. -/
theorem not_require_foreign {text : List Char} (h : Foreign text) :
    ¬ hasPrefix (shown (.foreign text h)) "require " := by
  intro hrequire
  obtain ⟨rest, hrest⟩ := of_decide_eq_true hrequire
  simp only [shown, trimSpace, String.toList_ofList] at hrest
  obtain ⟨rest', hrest'⟩ : trimRunes (Line.foreign text h).text <+: text.dropWhile isSpace :=
    List.rdropWhile_prefix isSpace _
  refine h.keyword ?_
  rw [← hrest', ← hrest, List.append_assoc]
  rfl

theorem require_of_block (h : hasPrefix s "require (" = true) : hasPrefix s "require " = true :=
  decide_eq_true ((show "require ".toList <+: "require (".toList by decide).trans
    (of_decide_eq_true h))

/-- Only a head begins like one. -/
theorem not_block (h : l.isHead = false) : ¬ hasPrefix (shown l) "require (" := by
  intro hblock
  obtain ⟨w, rest, hwords⟩ := words_of_block hblock
  rw [words_shown] at hwords
  cases l with
  | head hd => cases h
  | blank blanks =>
    rw [words_line_blank] at hwords
    cases hwords
  | comment lead text hline =>
    obtain ⟨v, rest', hcomment⟩ := words_line_comment lead text hline
    rw [hcomment] at hwords
    cases hwords
  | foreign text hforeign => exact not_require_foreign hforeign (require_of_block hblock)
  | single lead gap hgap r =>
    obtain ⟨v, rest', hr, -⟩ := words_requirement r
    rw [words_line_single, hr] at hwords
    have hpath : r.path.text = '(' :: w := (List.cons.inj (List.cons.inj hwords).2).1
    exact (r.path.not_paren '(' (hpath ▸ List.mem_cons_self)).1 rfl
  | entry lead r =>
    obtain ⟨v, rest', hr, ⟨v', hv⟩, -⟩ := words_requirement r
    rw [words_line_entry, hr] at hwords
    rw [(List.cons.inj (List.cons.inj hwords).2).1] at hv
    cases hversion : r.version.text with
    | nil => exact r.version.text_ne hversion
    | cons c t =>
      rw [hversion] at hv
      have hc : c = '(' := (List.cons.inj hv).1
      exact (r.version.not_paren c (hversion ▸ List.mem_cons_self)).1 hc
  | close lead tail htail =>
    obtain ⟨-, hclose⟩ | ⟨-, v, rest', hclose⟩ := words_line_close lead tail htail
    · rw [hclose] at hwords
      cases hwords
    · rw [hclose] at hwords
      cases hwords

theorem not_open (h : l.isHead = false) : shown l ≠ "require (" := by
  intro heq
  refine not_block h ?_
  rw [heq]
  decide

theorem words_of_close (h : shown l = ")") : words l.text = [[')']] := by
  rw [← words_shown, h]
  decide

theorem not_close_entry (lead : Blanks) (r : Requirement) : shown (.entry lead r) ≠ ")" := by
  intro heq
  obtain ⟨v, rest, hr, -⟩ := words_requirement r
  have hwords := words_of_close heq
  rw [words_line_entry, hr] at hwords
  exact absurd (congrArg List.length hwords) (by simp)

theorem not_close_comment (lead : Blanks) (text : List Char) (h : '\n' ∉ text) :
    shown (.comment lead text h) ≠ ")" := by
  intro heq
  obtain ⟨v, rest, hcomment⟩ := words_line_comment lead text h
  have hwords := words_of_close heq
  rw [hcomment] at hwords
  cases hwords

theorem not_close_blank (b : Blanks) : shown (.blank b) ≠ ")" := by
  intro heq
  have hwords := words_of_close heq
  rw [words_line_blank] at hwords
  cases hwords

/-- A closing parenthesis is read as one exactly if it has no comment. -/
theorem close_iff (lead : Blanks) (tail : Tail) (h : tail.Apart) :
    shown (.close lead tail h) = ")" ↔ tail.comment = none := by
  constructor
  · intro heq
    have hwords := words_of_close heq
    obtain ⟨hnone, -⟩ | ⟨-, v, rest, hclose⟩ := words_line_close lead tail h
    · exact hnone
    · rw [hclose] at hwords
      cases hwords
  · intro hnone
    have htail : tail.text = tail.gap.chars := by
      rw [Tail.text, hnone]
      exact List.append_nil _
    rw [shown, trimSpace, String.toList_ofList, Line.text, htail,
      trimRunes_rune lead.space (by decide) tail.gap.space]

theorem slashes_comment (lead : Blanks) (text : List Char) (h : '\n' ∉ text) :
    hasPrefix (shown (.comment lead text h)) "//" = true := by
  obtain ⟨rest, -, hrest⟩ := rdropWhile_append_cons (p := isSpace) (c := '/') (by decide) ['/'] text
  refine decide_eq_true ?_
  simp only [shown, trimSpace, String.toList_ofList, Line.text, trimRunes]
  rw [dropWhile_blank lead.space (by decide)]
  exact ⟨rest, hrest.symm⟩

theorem ne_empty (h : words l.text ≠ []) : shown l ≠ "" := by
  intro heq
  rw [← words_shown, heq] at h
  exact h (by decide)

theorem ne_empty_entry (lead : Blanks) (r : Requirement) : shown (.entry lead r) ≠ "" := by
  obtain ⟨v, rest, hr, -⟩ := words_requirement r
  refine ne_empty ?_
  rw [words_line_entry, hr]
  exact List.cons_ne_nil _ _

theorem not_slashes_entry (lead : Blanks) (r : Requirement) :
    ¬ hasPrefix (shown (.entry lead r)) "//" := by
  intro hslashes
  obtain ⟨w, rest, hwords⟩ := words_of_slashes hslashes
  obtain ⟨v, rest', hr, -⟩ := words_requirement r
  rw [words_shown, words_line_entry, hr] at hwords
  exact r.path.not_comment w (List.cons.inj hwords).1

theorem not_slashes_close (lead : Blanks) (tail : Tail) (h : tail.Apart) :
    ¬ hasPrefix (shown (.close lead tail h)) "//" := by
  intro hslashes
  obtain ⟨w, rest, hwords⟩ := words_of_slashes hslashes
  rw [words_shown] at hwords
  obtain ⟨-, hclose⟩ | ⟨-, v, rest', hclose⟩ := words_line_close lead tail h
  · rw [hclose] at hwords
    cases hwords
  · rw [hclose] at hwords
    cases hwords

end Lines

section Places

/-- The block is one whose head the scan of a disk knows. -/
def discovers (p : Place) : Bool := p.any fun h => shown (.head h) = "require ("

/-- The block is one whose head the scan of a repository knows. -/
def scans (p : Place) : Bool := p.any fun h => hasPrefix (shown (.head h)) "require ("

theorem discovers_some (h : Head) : discovers (some h) = decide (shown (.head h) = "require (") := by
  rw [discovers, Option.any_some]

theorem scans_some (h : Head) : scans (some h) = hasPrefix (shown (.head h)) "require (" := by
  rw [scans, Option.any_some]

/-- An entry without quotes or a touching comment, a closing parenthesis without a comment. -/
def Bare : Line → Prop
  | .entry _ r => r.Plain
  | .close _ tail _ => tail.comment = none
  | _ => True

/-- In a block that it knows, the scan of a disk takes the words of a comment for a module. -/
def DiscoveredClear (p : Place) (l : Line) : Prop :=
  discovers p = true →
    match l with
    | .comment .. => (words l.text).length < 2
    | l => Bare l

/-- A plain requirement, or a line of less than three words. -/
def Short : Line → Prop
  | .single _ _ _ r => r.Plain
  | l => (words l.text).length < 3

/-- Outside the blocks that it knows, the scan of a repository takes what follows the keyword for
a module. -/
def ScannedClear (p : Place) (l : Line) : Prop :=
  if scans p then Bare l
  else hasPrefix (shown l) "require " = true →
    hasPrefix (shown l) "require (" = true ∨ Short l

def discoveredGives (p : Place) : Line → List (String × String)
  | .entry _ r => if discovers p then [r.pair] else []
  | _ => []

def scannedGives (p : Place) : Line → List (String × String)
  | .entry _ r => if scans p then [r.pair] else []
  | .single lead gap h r =>
    if hasPrefix (shown (.single lead gap h r)) "require " then [r.pair] else []
  | _ => []

theorem genuine_iff {p v : List Char} :
    Genuine (String.ofList p, String.ofList v) ↔ IsWord p ∧ IsWord v := by
  rw [Genuine, String.toList_ofList, String.toList_ofList]

theorem genuine_pair (r : Requirement) : Genuine r.pair :=
  genuine_iff.mpr ⟨r.path.isWord, r.version.isWord⟩

/-- What stands in a block as an entry: its first two words are the pair if it is plain, and no
pair of words otherwise. -/
theorem firstTwo_entry (r : Requirement) :
    (r.Plain → firstTwo (words r.text) = [r.pair]) ∧
      (¬ r.Plain → ∃ o ∈ firstTwo (words r.text), ¬ Genuine o) := by
  obtain ⟨v, rest, hwords, -, hplain, hversion, -⟩ := words_requirement r
  rw [hwords, firstTwo]
  constructor
  · intro h
    rw [hversion h, Token.text, Token.text, h.path, h.version]
    rfl
  · exact fun h => ⟨_, List.mem_singleton_self _, fun hgenuine =>
      h (hplain.mp (genuine_iff.mp hgenuine))⟩

theorem discovered_odd {p : Place} (hallowed : Allowed p l) (hclear : ¬ DiscoveredClear p l) :
    ∃ o ∈ (discoveredLine (discovers p) l).1, ¬ Genuine o := by
  obtain ⟨hflag, hline⟩ := Classical.not_imp.mp hclear
  rw [hflag]
  cases l with
  | blank b => exact absurd trivial hline
  | foreign text h => exact absurd trivial hline
  | single lead gap h r => exact absurd trivial hline
  | head h => exact absurd trivial hline
  | comment lead text h =>
    rw [discoveredLine_eq (not_open rfl) fun _ => not_close_comment lead text h, if_pos rfl]
    obtain ⟨w, rest, hwords⟩ := words_line_comment lead text h
    rw [hwords] at hline ⊢
    cases rest with
    | nil => exact absurd Nat.one_lt_two hline
    | cons v rest =>
      exact ⟨_, List.mem_singleton_self _, fun hgenuine =>
        slashes_not_word (w := []) (genuine_iff.mp hgenuine).1⟩
  | entry lead r =>
    rw [discoveredLine_eq (not_open rfl) fun _ => not_close_entry lead r, if_pos rfl,
      words_line_entry]
    exact (firstTwo_entry r).2 hline
  | close lead tail h =>
    rw [discoveredLine_eq (not_open rfl) fun _ => mt (close_iff lead tail h).mp hline, if_pos rfl]
    obtain ⟨hnone, -⟩ | ⟨-, w, rest, hwords⟩ := words_line_close lead tail h
    · exact absurd hnone hline
    · rw [hwords]
      refine ⟨_, List.mem_singleton_self _, fun hgenuine => ?_⟩
      exact ((genuine_iff.mp hgenuine).1.plain ')' (List.mem_singleton_self _)).2.2.1 rfl

theorem discovered_clear {p : Place} (hallowed : Allowed p l) (hclear : DiscoveredClear p l) :
    discoveredLine (discovers p) l = (discoveredGives p l, discovers (next p l)) := by
  cases l with
  | blank b =>
    rw [discoveredLine_eq (not_open rfl) fun _ => not_close_blank b, words_line_blank]
    exact congrArg (·, discovers p) (ite_self [])
  | comment lead text h =>
    rw [discoveredLine_eq (not_open rfl) fun _ => not_close_comment lead text h]
    refine congrArg (·, discovers p) ?_
    split_ifs with hflag
    · obtain ⟨w, rest, hwords⟩ := words_line_comment lead text h
      have hshort := hclear hflag
      simp only [hwords] at hshort ⊢
      cases rest with
      | nil => rfl
      | cons v rest => exact absurd hshort (by simp)
    · rfl
  | foreign text h =>
    obtain rfl : p = none := hallowed
    exact discoveredLine_outside (not_open rfl)
  | single lead gap h r =>
    obtain rfl : p = none := hallowed
    exact discoveredLine_outside (not_open rfl)
  | head h =>
    obtain rfl : p = none := hallowed
    by_cases hopen : shown (.head h) = "require ("
    · rw [discoveredLine_open hopen, next, discovers_some, decide_eq_true hopen]
      rfl
    · rw [next, discovers_some, decide_eq_false hopen]
      exact discoveredLine_outside hopen
  | entry lead r =>
    rw [discoveredLine_eq (not_open rfl) fun _ => not_close_entry lead r, words_line_entry]
    refine congrArg (·, discovers p) ?_
    split_ifs with hflag
    · rw [discoveredGives, if_pos hflag]
      exact (firstTwo_entry r).1 (hclear hflag)
    · rw [discoveredGives, if_neg hflag]
  | close lead tail h =>
    cases hflag : discovers p with
    | false =>
      exact discoveredLine_outside (not_open rfl)
    | true => exact discoveredLine_close ((close_iff lead tail h).mpr (hclear hflag))

theorem scannedLine_open (h : hasPrefix (shown l) "require (" = true) :
    scannedLine flag l = ([], true) := by
  rw [shown] at h
  simp only [scannedLine, Shared.GoMods.goModLine]
  rw [if_pos h]
  rfl

theorem scannedLine_close (h : shown l = ")") : scannedLine true l = ([], false) := by
  rw [shown] at h
  simp only [scannedLine, Shared.GoMods.goModLine]
  rw [h, if_neg (by decide), if_pos ⟨trivial, rfl⟩]
  rfl

/-- Outside the blocks it knows, the scan of a repository looks for the keyword. -/
theorem scannedLine_outside (h : ¬ hasPrefix (shown l) "require (") : scannedLine false l =
    (if hasPrefix (shown l) "require " then firstTwo (words l.text).tail else [], false)  := by
  rw [scannedLine_eq h fun hflag => absurd hflag Bool.false_ne_true, if_neg Bool.false_ne_true]

/-- In the blocks it knows, the scan of a repository takes what is not a comment. -/
theorem scannedLine_inside (h : ¬ hasPrefix (shown l) "require (") (hclose : shown l ≠ ")") :
    scannedLine true l =
      (if shown l ≠ "" ∧ ¬ hasPrefix (shown l) "//" then firstTwo (words l.text) else [], true) := by
  rw [scannedLine_eq h fun _ => hclose, if_pos rfl]

theorem scanned_odd_inside (hline : ¬ Bare l) :
    ∃ o ∈ (scannedLine true l).1, ¬ Genuine o := by
  cases l with
  | blank b => exact absurd trivial hline
  | comment lead text h => exact absurd trivial hline
  | foreign text h => exact absurd trivial hline
  | single lead gap h r => exact absurd trivial hline
  | head h => exact absurd trivial hline
  | entry lead r =>
    rw [scannedLine_inside (not_block rfl) (not_close_entry lead r),
      if_pos ⟨ne_empty_entry lead r, not_slashes_entry lead r⟩, words_line_entry]
    exact (firstTwo_entry r).2 hline
  | close lead tail h =>
    obtain ⟨hnone, -⟩ | ⟨-, w, rest, hwords⟩ := words_line_close lead tail h
    · exact absurd hnone hline
    · have hne : shown (.close lead tail h) ≠ "" := ne_empty (hwords ▸ List.cons_ne_nil _ _)
      rw [scannedLine_inside (not_block rfl) (mt (close_iff lead tail h).mp hline),
        if_pos ⟨hne, not_slashes_close lead tail h⟩, hwords]
      refine ⟨_, List.mem_singleton_self _, fun hgenuine => ?_⟩
      exact ((genuine_iff.mp hgenuine).1.plain ')' (List.mem_singleton_self _)).2.2.1 rfl

/-- What follows the keyword is no pair of words, if there are two and it is no requirement. -/
theorem scanned_odd_outside (hrequire : hasPrefix (shown l) "require " = true)
    (hblock : ¬ hasPrefix (shown l) "require (") (hline : ¬ Short l) :
    ∃ o ∈ (scannedLine false l).1, ¬ Genuine o := by
  rw [scannedLine_outside hblock, if_pos hrequire]
  obtain ⟨rest, hwords⟩ := words_of_require hrequire
  rw [words_shown] at hwords
  cases l with
  | blank b =>
    rw [words_line_blank] at hwords
    cases hwords
  | comment lead text h =>
    obtain ⟨w, rest', hcomment⟩ := words_line_comment lead text h
    rw [hcomment] at hwords
    cases hwords
  | foreign text h => exact absurd hrequire (not_require_foreign h)
  | single lead gap h r =>
    rw [words_line_single]
    exact (firstTwo_entry r).2 hline
  | head h =>
    obtain ⟨w, rest', rfl⟩ := words_line_head hwords
    simp only [Short, hwords] at hline
    rw [hwords]
    cases rest' with
    | nil => exact absurd (Nat.lt_succ_self 2) hline
    | cons v rest' =>
      refine ⟨_, List.mem_singleton_self _, fun hgenuine => ?_⟩
      exact ((genuine_iff.mp hgenuine).1.plain '(' List.mem_cons_self).2.1 rfl
  | entry lead r =>
    obtain ⟨v, rest', hr, -, -, -, hodd⟩ := words_requirement r
    simp only [Short, words_line_entry, hr] at hline
    rw [words_line_entry, hr]
    cases rest' with
    | nil => exact absurd (Nat.lt_succ_self 2) hline
    | cons w rest' =>
      exact ⟨_, List.mem_singleton_self _, fun hgenuine => hodd w rfl (genuine_iff.mp hgenuine)⟩
  | close lead tail h =>
    obtain ⟨-, hclose⟩ | ⟨-, w, rest', hclose⟩ := words_line_close lead tail h
    · rw [hclose] at hwords
      cases hwords
    · rw [hclose] at hwords
      cases hwords

theorem firstTwo_short {ws : List (List Char)} (h : ws.length < 2) : firstTwo ws = [] := by
  rcases ws with - | ⟨p, - | ⟨v, rest⟩⟩
  · rfl
  · rfl
  · exact absurd h (by simp)

theorem shown_blank (b : Blanks) : shown (.blank b) = "" := by
  have hdrop : b.chars.dropWhile isSpace = [] := List.dropWhile_eq_nil_iff.mpr b.space
  rw [shown, trimSpace, String.toList_ofList, Line.text, trimRunes, hdrop]
  rfl

/-- Only requirements and heads begin with the keyword. -/
theorem not_require_close (lead : Blanks) (tail : Tail) (h : tail.Apart) :
    ¬ hasPrefix (shown (.close lead tail h)) "require " := by
  intro hrequire
  obtain ⟨rest, hwords⟩ := words_of_require hrequire
  rw [words_shown] at hwords
  obtain ⟨-, hclose⟩ | ⟨-, w, rest', hclose⟩ := words_line_close lead tail h
  · rw [hclose] at hwords
    cases hwords
  · rw [hclose] at hwords
    cases hwords

theorem not_require_comment (lead : Blanks) (text : List Char) (h : '\n' ∉ text) :
    ¬ hasPrefix (shown (.comment lead text h)) "require " := by
  intro hrequire
  obtain ⟨rest, hwords⟩ := words_of_require hrequire
  obtain ⟨w, rest', hcomment⟩ := words_line_comment lead text h
  rw [words_shown, hcomment] at hwords
  cases hwords

theorem not_require_blank (b : Blanks) : ¬ hasPrefix (shown (.blank b)) "require " := by
  rw [shown_blank]
  decide

theorem scanned_clear_inside {p : Place} (hallowed : Allowed p l) (hflag : scans p = true)
    (hline : Bare l) : scannedLine true l = (scannedGives p l, scans (next p l)) := by
  cases l with
  | blank b =>
    rw [scannedLine_inside (not_block rfl) (not_close_blank b), shown_blank, next, hflag]
    rfl
  | comment lead text h =>
    rw [scannedLine_inside (not_block rfl) (not_close_comment lead text h),
      if_neg fun hnot => hnot.2 (slashes_comment lead text h), next, hflag]
    rfl
  | foreign text h =>
    obtain rfl : p = none := hallowed
    cases hflag
  | single lead gap h r =>
    obtain rfl : p = none := hallowed
    cases hflag
  | head h =>
    obtain rfl : p = none := hallowed
    cases hflag
  | entry lead r =>
    rw [scannedLine_inside (not_block rfl) (not_close_entry lead r),
      if_pos ⟨ne_empty_entry lead r, not_slashes_entry lead r⟩, words_line_entry,
      (firstTwo_entry r).1 hline, scannedGives, next, hflag, if_pos rfl]
  | close lead tail h => exact scannedLine_close ((close_iff lead tail h).mpr hline)

theorem scanned_clear_outside {p : Place} (hallowed : Allowed p l) (hflag : scans p = false)
    (hline : hasPrefix (shown l) "require " = true →
      hasPrefix (shown l) "require (" = true ∨ Short l) :
    scannedLine false l = (scannedGives p l, scans (next p l)) := by
  cases l with
  | blank b =>
    rw [scannedLine_outside (not_block rfl), if_neg (not_require_blank b), next, hflag]
    rfl
  | comment lead text h =>
    rw [scannedLine_outside (not_block rfl), if_neg (not_require_comment lead text h), next, hflag]
    rfl
  | foreign text h =>
    rw [scannedLine_outside (not_block rfl), if_neg (not_require_foreign h), next, hflag]
    rfl
  | single lead gap h r =>
    rw [scannedLine_outside (not_block rfl), next, hflag, scannedGives]
    refine congrArg (·, false) ?_
    split_ifs with hrequire
    · rw [words_line_single]
      exact (firstTwo_entry r).1 ((hline hrequire).resolve_left (not_block rfl))
    · rfl
  | head h =>
    by_cases hblock : hasPrefix (shown (.head h)) "require (" = true
    · rw [scannedLine_open hblock, next, scans_some, hblock]
      rfl
    · rw [scannedLine_outside hblock, next, scans_some, Bool.eq_false_iff.mpr hblock]
      refine congrArg (·, false) ?_
      split_ifs with hrequire
      · have hshort : (words (Line.head h).text).length < 3 :=
          (hline hrequire).resolve_left hblock
        refine firstTwo_short ?_
        rw [List.length_tail]
        omega
      · rfl
  | entry lead r =>
    rw [scannedLine_outside (not_block rfl), next, hflag, scannedGives, hflag, if_neg Bool.false_ne_true]
    refine congrArg (·, false) ?_
    split_ifs with hrequire
    · have hshort : (words (Line.entry lead r).text).length < 3 :=
        (hline hrequire).resolve_left (not_block rfl)
      refine firstTwo_short ?_
      rw [List.length_tail]
      omega
    · rfl
  | close lead tail h =>
    rw [scannedLine_outside (not_block rfl), if_neg (not_require_close lead tail h)]
    rfl

theorem discovered_reads :
    Reads discoveredLine next discoveredGives discovers Allowed DiscoveredClear Genuine where
  odd _ _ := discovered_odd
  clear _ _ := discovered_clear
  genuine p l o ho := by
    cases l with
    | entry lead r =>
      rw [discoveredGives] at ho
      split_ifs at ho
      · exact List.mem_singleton.mp ho ▸ genuine_pair r
      · cases ho
    | _ => cases ho

theorem scanned_reads :
    Reads scannedLine next scannedGives scans Allowed ScannedClear Genuine where
  odd p l hallowed hclear := by
    rw [ScannedClear] at hclear
    cases hflag : scans p with
    | true =>
      rw [if_pos hflag] at hclear
      exact scanned_odd_inside hclear
    | false =>
      rw [if_neg (Bool.eq_false_iff.mp hflag)] at hclear
      obtain ⟨hrequire, hline⟩ := Classical.not_imp.mp hclear
      obtain ⟨hblock, hshort⟩ := not_or.mp hline
      exact scanned_odd_outside hrequire hblock hshort
  clear p l hallowed hclear := by
    rw [ScannedClear] at hclear
    cases hflag : scans p with
    | true =>
      rw [if_pos hflag] at hclear
      exact scanned_clear_inside hallowed hflag hclear
    | false =>
      rw [if_neg (Bool.eq_false_iff.mp hflag)] at hclear
      exact scanned_clear_outside hallowed hflag hclear
  genuine p l o ho := by
    cases l with
    | entry lead r =>
      rw [scannedGives] at ho
      split_ifs at ho
      · exact List.mem_singleton.mp ho ▸ genuine_pair r
      · cases ho
    | single lead gap h r =>
      rw [scannedGives] at ho
      split_ifs at ho
      · exact List.mem_singleton.mp ho ▸ genuine_pair r
      · cases ho
    | _ => cases ho

end Places

section Texts

/-- The libraries that the scan of a disk finds. -/
def discovered (data : String) : List (String × String) :=
  (Discovery.Manifests.parseGoMod data).filterMap SBOMComponent.library

/-- The modules that the scan of a repository finds. -/
def scanned (content : String) : List (String × String) :=
  (Shared.GoMods.parseGoMod content).map GHComponent.pair

/-- The lines that a scanner has room for, up to the first that it has not. -/
def read (m : GoMod) : List Line := m.lines.takeWhile fun l => Scannable (String.ofList l.text)

theorem discovered_text (m : GoMod) : discovered m.text = outputs discoveredLine false m.lines := by
  rw [discovered, Discovery.Manifests.parseGoMod, outputs_filterMap]
  by_cases hlines : m.lines = []
  · rw [splitLines_empty m hlines, hlines]
    decide
  · rw [splitLines_text m hlines, outputs_map]
    rfl

theorem goModLine_trimSuffix (flag : Bool) (line : String) :
    Shared.GoMods.goModLine flag (trimSuffix line "\r") = Shared.GoMods.goModLine flag line := by
  simp only [Shared.GoMods.goModLine, trimSpace_trimSuffix]

theorem goModLine_empty (flag : Bool) : Shared.GoMods.goModLine flag "" = ([], flag) := by
  cases flag <;> decide

/-- The empty line at the end, which a scanner does not give, has nothing in it. -/
theorem outputs_scanLines (s : String) :
    outputs Shared.GoMods.goModLine false (scanLines s) =
      outputs Shared.GoMods.goModLine false
        ((splitLines s).takeWhile fun line => Scannable line) := by
  have htrim : ∀ lines : List String,
      outputs Shared.GoMods.goModLine false (lines.map fun line => trimSuffix line "\r") =
        outputs Shared.GoMods.goModLine false lines := by
    intro lines
    have hstep : (fun flag line => Shared.GoMods.goModLine flag (trimSuffix line "\r")) =
        Shared.GoMods.goModLine :=
      funext fun flag => funext fun line => goModLine_trimSuffix flag line
    rw [outputs_map, hstep]
  simp only [scanLines]
  rw [htrim]
  split_ifs with hlast
  · obtain ⟨lines, hlines⟩ := List.getLast?_eq_some_iff.mp hlast
    rw [hlines, List.dropLast_concat, List.takeWhile_append]
    split_ifs with hall
    · have hempty : [""].takeWhile (fun line => Scannable line) = [""] :=
        List.takeWhile_cons_of_pos (decide_eq_true scannable_empty)
      rw [(List.takeWhile_prefix _).eq_of_length hall, outputs_append, hempty, outputs,
        goModLine_empty, outputs, List.append_nil, List.append_nil]
    · rfl
  · rfl

theorem scanned_text (m : GoMod) : scanned m.text = outputs scannedLine false (read m) := by
  have hpairs : ∀ lines : List String,
      (outputs Shared.GoMods.goModLine false lines).map GHComponent.pair =
        outputs (fun flag line => ((Shared.GoMods.goModLine flag line).1.map GHComponent.pair,
          (Shared.GoMods.goModLine flag line).2)) false lines := by
    intro lines
    rw [← List.filterMap_eq_map, outputs_filterMap]
  rw [scanned, Shared.GoMods.parseGoMod, outputs_scanLines, hpairs]
  by_cases hlines : m.lines = []
  · rw [splitLines_empty m hlines, read, hlines]
    decide
  · rw [splitLines_text m hlines, List.takeWhile_map, outputs_map]
    rfl

/-- Both parsers find the modules that the file requires. -/
structure Agree (m : GoMod) : Prop where
  same : ∀ o, o ∈ discovered m.text ↔ o ∈ scanned m.text
  discovered : ∀ o, o ∈ discovered m.text ↔ o ∈ m.required
  scanned : ∀ o, o ∈ scanned m.text ↔ o ∈ m.required

/-- Every requirement stands as an entry in a block that the scan of a disk knows, and all lines of
these blocks are clear. -/
def Discovers (m : GoMod) : Prop :=
  Along (fun p l => ((), next p l)) DiscoveredClear none m.lines ∧
    ∀ o ∈ m.required, o ∈ given next discoveredGives none m.lines

/-- Every requirement stands, before a line that is too long, as an entry in a block that the scan
of a repository knows or behind the keyword, and all lines before are clear. -/
def Scans (m : GoMod) : Prop :=
  Along (fun p l => ((), next p l)) ScannedClear none (read m) ∧
    ∀ o ∈ m.required, o ∈ given next scannedGives none (read m)

theorem required_genuine (m : GoMod) : ∀ o ∈ m.required, Genuine o := by
  intro o ho
  obtain ⟨l, -, hl⟩ := List.mem_flatMap.mp ho
  cases l with
  | single lead gap h r => exact List.mem_singleton.mp hl ▸ genuine_pair r
  | entry lead r => exact List.mem_singleton.mp hl ▸ genuine_pair r
  | _ => cases hl

theorem required_of_given {gives : Place → Line → List (String × String)}
    (h : ∀ p l, ∀ o ∈ gives p l, o ∈ l.required) {p : Place} {ls : List Line} :
    ∀ o ∈ given next gives p ls, o ∈ ls.flatMap Line.required := by
  induction ls generalizing p with
  | nil => exact List.forall_mem_nil _
  | cons l ls ih =>
    intro o ho
    rw [given, List.mem_append] at ho
    rw [List.flatMap_cons, List.mem_append]
    exact ho.imp (h p l o) (ih o)

theorem discovered_required (p : Place) (l : Line) : ∀ o ∈ discoveredGives p l, o ∈ l.required := by
  intro o ho
  cases l with
  | entry lead r =>
    rw [discoveredGives] at ho
    split_ifs at ho
    · exact ho
    · cases ho
  | _ => cases ho

theorem scanned_required (p : Place) (l : Line) : ∀ o ∈ scannedGives p l, o ∈ l.required := by
  intro o ho
  cases l with
  | entry lead r =>
    rw [scannedGives] at ho
    split_ifs at ho
    · exact ho
    · cases ho
  | single lead gap h r =>
    rw [scannedGives] at ho
    split_ifs at ho
    · exact ho
    · cases ho
  | _ => cases ho

theorem discovers_iff (m : GoMod) :
    (∀ o, o ∈ discovered m.text ↔ o ∈ m.required) ↔ Discovers m := by
  rw [discovered_text]
  exact outputs_iff discovered_reads m.allowed (required_genuine m)
    (required_of_given discovered_required)

theorem scans_iff (m : GoMod) : (∀ o, o ∈ scanned m.text ↔ o ∈ m.required) ↔ Scans m := by
  have hprefix : read m <+: m.lines := List.takeWhile_prefix _
  have hallowed : Along (fun p l => ((), next p l)) Allowed none (read m) := by
    obtain ⟨rest, hrest⟩ := hprefix
    have hall := m.allowed
    rw [← hrest, along_append] at hall
    exact hall.1
  rw [scanned_text]
  refine outputs_iff scanned_reads hallowed (required_genuine m) fun o ho => ?_
  obtain ⟨l, hl, hrequired⟩ := List.mem_flatMap.mp (required_of_given scanned_required o ho)
  exact List.mem_flatMap.mpr ⟨l, hprefix.subset hl, hrequired⟩

/-- The two parsers of `go.mod` files agree, and find what the file requires, if and only if both
know the blocks of all requirements and nothing in their way misleads them. -/
theorem go_mods_agree_iff (m : GoMod) : Agree m ↔ Discovers m ∧ Scans m := by
  rw [← discovers_iff, ← scans_iff]
  exact ⟨fun h => ⟨h.discovered, h.scanned⟩,
    fun h => ⟨fun o => (h.1 o).trans (h.2 o).symm, h.1, h.2⟩⟩

/-- A requirement on a line of its own. -/
def singleLine : GoMod where
  lines :=
    [.single ⟨[], List.forall_mem_nil _⟩ ⟨[' '], by simp⟩ (List.cons_ne_nil _ _)
      { path := ⟨"x.y/z".toList, isWord_of (by decide) (by decide) (by decide), .none⟩
        gap := ⟨[' '], by simp⟩
        gap_ne := List.cons_ne_nil _ _
        version := ⟨"v1.0.0".toList, isWord_of (by decide) (by decide) (by decide), .none⟩
        tail := ⟨⟨[], List.forall_mem_nil _⟩, none, nofun⟩ }]
  allowed := ⟨rfl, trivial⟩
  closed := rfl

/-- The scan of a disk does not find it. -/
theorem single_line_missed : ¬ ∀ m : GoMod, Agree m := by
  intro h
  have hmem := ((h singleLine).discovered ("x.y/z", "v1.0.0")).mpr (List.mem_singleton_self _)
  rw [discovered_text] at hmem
  revert hmem
  decide

end Texts

end RivicQ.Properties.GoMods
