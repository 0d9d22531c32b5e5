import RivicQ.Lib.GoStrings

namespace RivicQ.Lib.Fields

open RivicQ.Lib.GoStrings

variable {s w b : List Char} {c : Char}

/-- The words of a text, between its white space. -/
def words (s : List Char) : List (List Char) := (s.splitOnP isSpace).filter (· ≠ [])

def fields (s : String) : List String := (words s.toList).map String.ofList

/-- The lines of a text, as `strings.Split` cuts it at line feeds. -/
def splitLines (s : String) : List String := (s.toList.splitOn '\n').map String.ofList

/-- The bytes that a `bufio.Scanner` has room for. -/
def maxScanTokenSize : Nat := 65536

/-- A line that a scanner has room for. -/
def Scannable (line : String) : Prop := len line < maxScanTokenSize

instance : DecidablePred Scannable := fun line => inferInstanceAs (Decidable (len line < _))

theorem scannable_empty : Scannable "" := by simp [Scannable, len, maxScanTokenSize]

/-- The lines of a text, as a `bufio.Scanner` gives them: it ends before a line that it has no
room for. -/
def scanLines (s : String) : List String :=
  let lines := splitLines s
  let lines := if lines.getLast? = some "" then lines.dropLast else lines
  (lines.takeWhile fun line => Scannable line).map fun line => trimSuffix line "\r"

theorem not_space_of_all (h : w.all (fun c => !isSpace c) = true) : ∀ c ∈ w, isSpace c = false :=
  fun c hc => by simpa using List.all_eq_true.mp h c hc

theorem words_nil : words [] = [] := rfl

theorem words_space (h : isSpace c = true) (s : List Char) : words (c :: s) = words s := by
  have hsplit := List.splitOnP_append_cons (p := isSpace) [] s h
  rw [List.nil_append, List.splitOnP_nil] at hsplit
  rw [words, hsplit]
  rfl

theorem words_blank (h : ∀ c ∈ b, isSpace c = true) (s : List Char) :
    words (b ++ s) = words s := by
  induction b with
  | nil => rfl
  | cons c b ih =>
    obtain ⟨hc, hb⟩ := List.forall_mem_cons.mp h
    rw [List.cons_append, words_space hc, ih hb]

theorem words_word (hne : w ≠ []) (h : ∀ c ∈ w, isSpace c = false) : words w = [w] := by
  rw [words, List.splitOnP_eq_singleton h, List.filter_singleton, decide_eq_true hne]
  rfl

theorem words_append (hne : w ≠ []) (h : ∀ c ∈ w, isSpace c = false) (hc : isSpace c = true)
    (s : List Char) : words (w ++ c :: s) = w :: words s := by
  rw [words, List.splitOnP_append_cons_of_forall_mem h c hc, List.filter_cons_of_pos]
  · rfl
  · exact decide_eq_true hne

theorem words_append_blank (hne : w ≠ []) (h : ∀ c ∈ w, isSpace c = false) (hb : b ≠ [])
    (hblank : ∀ c ∈ b, isSpace c = true) (s : List Char) :
    words (w ++ (b ++ s)) = w :: words s := by
  cases b with
  | nil => exact absurd rfl hb
  | cons c b =>
    obtain ⟨hc, hb⟩ := List.forall_mem_cons.mp hblank
    rw [List.cons_append, words_append hne h hc, words_blank hb]

/-- A text that begins with a word that goes on: the first word is the longest there is. -/
theorem words_takeWhile (hc : isSpace c = false) (s : List Char) :
    words (c :: s) = (c :: s).takeWhile (fun c => !isSpace c) ::
      words ((c :: s).dropWhile fun c => !isSpace c) := by
  have hword : ∀ d ∈ (c :: s).takeWhile (fun c => !isSpace c), isSpace d = false := fun d hd => by
    simpa using List.mem_takeWhile_imp hd
  have hne : (c :: s).takeWhile (fun c => !isSpace c) ≠ [] := by
    rw [List.takeWhile_cons_of_pos (by simp [hc])]
    exact List.cons_ne_nil _ _
  have hsplit := List.takeWhile_append_dropWhile (p := fun c => !isSpace c) (l := c :: s)
  cases hrest : (c :: s).dropWhile (fun c => !isSpace c) with
  | nil =>
    rw [hrest, List.append_nil] at hsplit
    rw [hsplit] at hne hword ⊢
    rw [words_word hne hword, words_nil]
  | cons d t =>
    have hd : isSpace d = true := by
      have hhead := List.head?_dropWhile_not (fun c => !isSpace c) (c :: s)
      rw [hrest] at hhead
      simpa using hhead
    conv_lhs => rw [← hsplit, hrest]
    rw [words_append hne hword hd, words_space hd]

/-- A word grows up to the next white space. -/
theorem words_prefix (hne : w ≠ []) (h : ∀ c ∈ w, isSpace c = false) (s : List Char) :
    words (w ++ s) = (w ++ s.takeWhile (fun c => !isSpace c)) ::
      words (s.dropWhile fun c => !isSpace c) := by
  have hword : ∀ c ∈ w, (!isSpace c) = true := fun c hc => by rw [h c hc, Bool.not_false]
  rw [← List.takeWhile_append_of_pos hword, ← List.dropWhile_append_of_pos hword]
  cases w with
  | nil => exact absurd rfl hne
  | cons c w => exact words_takeWhile (h c List.mem_cons_self) (w ++ s)

theorem words_dropWhile (s : List Char) : words (s.dropWhile isSpace) = words s := by
  conv_rhs => rw [← List.takeWhile_append_dropWhile (p := isSpace) (l := s)]
  exact (words_blank (fun c hc => List.mem_takeWhile_imp hc) _).symm

theorem words_append_of_blank (s : List Char) (h : ∀ c ∈ b, isSpace c = true) :
    words (s ++ b) = words s := by
  cases b with
  | nil => rw [List.append_nil]
  | cons c b =>
    obtain ⟨hc, hb⟩ := List.forall_mem_cons.mp h
    have hnil : words b = [] := by
      rw [← List.append_nil b, words_blank hb, words_nil]
    rw [words, List.splitOnP_append_cons s b hc, List.filter_append, ← words, ← words, hnil,
      List.append_nil]

theorem words_trimRunes (s : List Char) : words (trimRunes s) = words s := by
  rw [← words_dropWhile s, trimRunes]
  conv_rhs => rw [← List.rdropWhile_append_rtakeWhile (p := isSpace) (l := s.dropWhile isSpace)]
  exact (words_append_of_blank _ fun c hc => List.mem_rtakeWhile_imp hc).symm

theorem trimRunes_concat (h : isSpace c = true) (s : List Char) :
    trimRunes (s ++ [c]) = trimRunes s := by
  rw [trimRunes, trimRunes, List.dropWhile_append]
  split_ifs with hs
  · rw [List.isEmpty_iff.mp hs, List.dropWhile_cons_of_pos h]
    rfl
  · rw [List.rdropWhile_concat_pos _ _ _ h]

/-- A scanner drops the carriage return before a line feed, and trimming does not see it. -/
theorem trimSpace_trimSuffix (s : String) : trimSpace (trimSuffix s "\r") = trimSpace s := by
  rw [trimSuffix]
  split_ifs with hsuffix
  · obtain ⟨t, ht⟩ := of_decide_eq_true hsuffix
    have hs : s.toList = t ++ ['\r'] := ht.symm
    rw [trimSpace, trimSpace, String.toList_ofList, hs]
    have hdrop : (t ++ ['\r']).rdrop "\r".length = t := by
      rw [show "\r".length = 1 by rfl, List.rdrop_concat_succ, List.rdrop_zero]
    rw [hdrop, trimRunes_concat (by decide)]
  · rfl

theorem dropWhile_blank (hb : ∀ c ∈ b, isSpace c = true) (hc : isSpace c = false) (s : List Char) :
    (b ++ c :: s).dropWhile isSpace = c :: s := by
  rw [List.dropWhile_append_of_pos hb, List.dropWhile_cons_of_neg (by simp [hc])]

/-- A rune between blanks. -/
theorem trimRunes_rune {b' : List Char} (hb : ∀ c ∈ b, isSpace c = true) (hc : isSpace c = false)
    (hb' : ∀ c ∈ b', isSpace c = true) : trimRunes (b ++ c :: b') = [c] := by
  rw [trimRunes, dropWhile_blank hb hc, List.rdropWhile, List.reverse_cons,
    List.dropWhile_append_of_pos fun d hd => hb' d (List.mem_reverse.mp hd),
    List.dropWhile_cons_of_neg (by simp [hc])]
  rfl

theorem not_mem_splitOnP {p : Char → Bool} (hw : w ∈ s.splitOnP p) : ∀ c ∈ w, p c = false := by
  induction s generalizing w with
  | nil =>
    rw [List.splitOnP_nil, List.mem_singleton] at hw
    rw [hw]
    exact List.forall_mem_nil _
  | cons d s ih =>
    rw [List.splitOnP_cons_eq_if_modifyHead] at hw
    split_ifs at hw with hd
    · obtain rfl | hw := List.mem_cons.mp hw
      · exact List.forall_mem_nil _
      · exact ih hw
    · obtain ⟨v, rest, he⟩ := List.exists_cons_of_ne_nil (List.splitOnP_ne_nil p s)
      rw [he, List.modifyHead_cons] at hw
      obtain rfl | hw := List.mem_cons.mp hw
      · exact List.forall_mem_cons.mpr ⟨Bool.eq_false_iff.mpr hd, ih (he ▸ List.mem_cons_self)⟩
      · exact ih (he ▸ List.mem_cons_of_mem v hw)

theorem mem_words (hw : w ∈ words s) : w ≠ [] ∧ ∀ c ∈ w, isSpace c = false := by
  obtain ⟨hmem, hne⟩ := List.mem_filter.mp hw
  exact ⟨of_decide_eq_true hne, not_mem_splitOnP hmem⟩

end RivicQ.Lib.Fields
