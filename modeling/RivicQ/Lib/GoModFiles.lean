import RivicQ.Lib.Fields
import RivicQ.Lib.Projections

namespace RivicQ.Lib.GoModFiles

open RivicQ.Lib.GoStrings RivicQ.Lib.Fields RivicQ.Lib.Projections

def doubleQuote : Char := Char.ofNat 0x22

def backQuote : Char := Char.ofNat 0x60

/-- Blanks between the tokens of a line. -/
structure Blanks where
  chars : List Char
  blank : ∀ c ∈ chars, c = ' ' ∨ c = '\t' ∨ c = '\r'

/-- What a module path or a version is. -/
structure IsWord (s : List Char) : Prop where
  ne_nil : s ≠ []
  plain : ∀ c ∈ s, isSpace c = false ∧ c ≠ '(' ∧ c ≠ ')' ∧ c ≠ doubleQuote ∧ c ≠ backQuote
  slashes : ¬ ['/', '/'] <:+: s

inductive Quoting where
  | none
  | double
  | back
  deriving DecidableEq

/-- A word as it is written, with or without quotes. -/
structure Token where
  word : List Char
  isWord : IsWord word
  quoting : Quoting

def Token.text (t : Token) : List Char :=
  match t.quoting with
  | .none => t.word
  | .double => doubleQuote :: (t.word ++ [doubleQuote])
  | .back => backQuote :: (t.word ++ [backQuote])

/-- The end of a line: blanks, and perhaps a comment. -/
structure Tail where
  gap : Blanks
  comment : Option (List Char)
  one_line : ∀ text ∈ comment, '\n' ∉ text

def Tail.text (t : Tail) : List Char :=
  t.gap.chars ++ match t.comment with
    | none => []
    | some text => '/' :: '/' :: text

/-- A comment is set off from what stands before it. -/
def Tail.Apart (t : Tail) : Prop := t.comment ≠ none → t.gap.chars ≠ []

def keyword : List Char := ['r', 'e', 'q', 'u', 'i', 'r', 'e']

/-- What can stand in a word without quotes. -/
def wordChar (c : Char) : Bool :=
  !isSpace c && c ≠ '(' && c ≠ ')' && c ≠ doubleQuote && c ≠ backQuote

/-- A line of another directive, or of a block of one. -/
structure Foreign (text : List Char) : Prop where
  one_line : '\n' ∉ text
  keyword : (text.dropWhile isSpace).takeWhile wordChar ≠ keyword

/-- A module and its version, with the blanks between them. -/
structure Requirement where
  path : Token
  gap : Blanks
  gap_ne : gap.chars ≠ []
  version : Token
  tail : Tail

def Requirement.text (r : Requirement) : List Char :=
  r.path.text ++ (r.gap.chars ++ (r.version.text ++ r.tail.text))

def Requirement.pair (r : Requirement) : String × String :=
  (String.ofList r.path.word, String.ofList r.version.word)

/-- The module and the version stand there without quotes, and nothing touches the version. -/
structure Requirement.Plain (r : Requirement) : Prop where
  path : r.path.quoting = .none
  version : r.version.quoting = .none
  apart : r.tail.Apart

/-- The line that opens a block of requirements. -/
structure Head where
  lead : Blanks
  gap : Blanks
  tail : Tail

def Head.text (h : Head) : List Char :=
  h.lead.chars ++ (keyword ++ (h.gap.chars ++ '(' :: h.tail.text))

inductive Line where
  | blank (blanks : Blanks)
  | comment (lead : Blanks) (text : List Char) (h : '\n' ∉ text)
  | foreign (text : List Char) (h : Foreign text)
  | single (lead gap : Blanks) (h : gap.chars ≠ []) (r : Requirement)
  | head (h : Head)
  | entry (lead : Blanks) (r : Requirement)
  | close (lead : Blanks) (tail : Tail) (h : tail.Apart)

def Line.text : Line → List Char
  | .blank blanks => blanks.chars
  | .comment lead text _ => lead.chars ++ '/' :: '/' :: text
  | .foreign text _ => text
  | .single lead gap _ r => lead.chars ++ (keyword ++ (gap.chars ++ r.text))
  | .head h => h.text
  | .entry lead r => lead.chars ++ r.text
  | .close lead tail _ => lead.chars ++ ')' :: tail.text

def Line.isHead : Line → Bool
  | .head _ => true
  | _ => false

/-- The block of requirements that a line stands in, if any. -/
abbrev Place := Option Head

def next (p : Place) : Line → Place
  | .head h => some h
  | .close .. => none
  | .blank _ | .comment .. | .foreign .. | .single .. | .entry .. => p

/-- Entries and the closing parenthesis stand in blocks, other directives outside. -/
def Allowed (p : Place) : Line → Prop
  | .blank _ => True
  | .comment .. => True
  | .foreign .. => p = none
  | .single .. => p = none
  | .head _ => p = none
  | .entry .. => p.isSome = true
  | .close .. => p.isSome = true

/-- A `go.mod` file: its lines, with every block closed. -/
structure GoMod where
  lines : List Line
  allowed : Along (fun p l => ((), next p l)) Allowed none lines
  closed : after (fun p l => ((), next p l)) none lines = none

def GoMod.text (m : GoMod) : String :=
  String.ofList (['\n'].intercalate (m.lines.map Line.text))

def Line.required : Line → List (String × String)
  | .single _ _ _ r => [r.pair]
  | .entry _ r => [r.pair]
  | _ => []

/-- The modules that a file requires. -/
def GoMod.required (m : GoMod) : List (String × String) := m.lines.flatMap Line.required

/-- A pair of words. -/
def Genuine (o : String × String) : Prop := IsWord o.1.toList ∧ IsWord o.2.toList

section Words

variable {w : List Char}

theorem isWord_of (hne : w ≠ []) (h : w.all wordChar = true) (hs : ¬ ['/', '/'] <:+: w) :
    IsWord w where
  ne_nil := hne
  plain c hc := by simpa [wordChar, and_assoc] using List.all_eq_true.mp h c hc
  slashes := hs

theorem keyword_ne : keyword ≠ [] := List.cons_ne_nil _ _

theorem keyword_space : ∀ c ∈ keyword, isSpace c = false := not_space_of_all (by decide)

theorem Blanks.space (b : Blanks) : ∀ c ∈ b.chars, isSpace c = true := by
  intro c hc
  obtain rfl | rfl | rfl := b.blank c hc <;> decide

theorem Token.text_ne (t : Token) : t.text ≠ [] := by
  rw [Token.text]
  cases t.quoting with
  | none => exact t.isWord.ne_nil
  | double => exact List.cons_ne_nil _ _
  | back => exact List.cons_ne_nil _ _

theorem Token.mem_text {t : Token} {c : Char} (h : c ∈ t.text) :
    c ∈ t.word ∨ c = doubleQuote ∨ c = backQuote := by
  rw [Token.text] at h
  cases hq : t.quoting with
  | none =>
    rw [hq] at h
    exact Or.inl h
  | double =>
    rw [hq] at h
    simp only [List.mem_cons, List.mem_append, List.not_mem_nil, or_false] at h
    tauto
  | back =>
    rw [hq] at h
    simp only [List.mem_cons, List.mem_append, List.not_mem_nil, or_false] at h
    tauto

theorem Token.not_space (t : Token) : ∀ c ∈ t.text, isSpace c = false := by
  intro c hc
  obtain hword | rfl | rfl := Token.mem_text hc
  · exact (t.isWord.plain c hword).1
  · decide
  · decide

theorem Token.not_paren (t : Token) : ∀ c ∈ t.text, c ≠ '(' ∧ c ≠ ')' := by
  intro c hc
  obtain hword | rfl | rfl := Token.mem_text hc
  · exact ⟨(t.isWord.plain c hword).2.1, (t.isWord.plain c hword).2.2.1⟩
  · decide
  · decide

/-- A token is a word as it is written if and only if it has no quotes. -/
theorem Token.isWord_text (t : Token) : IsWord t.text ↔ t.quoting = .none := by
  rw [Token.text]
  cases t.quoting with
  | none => exact iff_of_true t.isWord rfl
  | double =>
    refine iff_of_false (fun h => ?_) nofun
    exact (h.plain doubleQuote List.mem_cons_self).2.2.2.1 rfl
  | back =>
    refine iff_of_false (fun h => ?_) nofun
    exact (h.plain backQuote List.mem_cons_self).2.2.2.2 rfl

theorem slashes_not_word {w w' : List Char} : ¬ IsWord (w ++ '/' :: '/' :: w') := fun h =>
  h.slashes ⟨w, w', by simp⟩

theorem Token.not_comment (t : Token) (w : List Char) : t.text ≠ '/' :: '/' :: w := by
  intro h
  have hquoting : t.quoting = .none := by
    rw [Token.text] at h
    cases hq : t.quoting with
    | none => rfl
    | double =>
      rw [hq] at h
      exact absurd (List.cons.inj h).1 (by decide)
    | back =>
      rw [hq] at h
      exact absurd (List.cons.inj h).1 (by decide)
  have hword := t.isWord_text.mpr hquoting
  rw [h] at hword
  exact slashes_not_word (w := []) hword

/-- The words of a comment. -/
theorem words_comment (text : List Char) :
    ∃ w rest, words ('/' :: '/' :: text) = ('/' :: '/' :: w) :: rest :=
  ⟨_, _, words_prefix (w := ['/', '/']) (List.cons_ne_nil _ _) (not_space_of_all (by decide)) text⟩

/-- The words of a word with the end of its line behind it. -/
theorem words_tail {w : List Char} (hne : w ≠ []) (h : ∀ c ∈ w, isSpace c = false) (tail : Tail) :
    (tail.comment = none ∧ words (w ++ tail.text) = [w]) ∨
      (tail.comment ≠ none ∧ tail.Apart ∧ ∃ v rest,
        words (w ++ tail.text) = w :: ('/' :: '/' :: v) :: rest) ∨
      (tail.comment ≠ none ∧ ¬ tail.Apart ∧ ∃ v rest,
        words (w ++ tail.text) = (w ++ '/' :: '/' :: v) :: rest) := by
  rw [Tail.text]
  cases hc : tail.comment with
  | none =>
    left
    refine ⟨rfl, ?_⟩
    rw [List.append_nil, words_append_of_blank _ tail.gap.space, words_word hne h]
  | some text =>
    right
    by_cases hgap : tail.gap.chars = []
    · right
      refine ⟨nofun, fun h => h (by simp [hc]) hgap, text.takeWhile (fun c => !isSpace c), ?_⟩
      have hword : ∀ c ∈ w ++ ['/', '/'], isSpace c = false := by
        intro c hmem
        obtain hmem | hmem := List.mem_append.mp hmem
        · exact h c hmem
        · obtain rfl : c = '/' := by simpa using hmem
          decide
      have hwords := words_prefix (List.append_ne_nil_of_right_ne_nil w
        (List.cons_ne_nil '/' ['/'])) hword text
      rw [List.append_assoc, List.append_assoc] at hwords
      rw [hgap]
      exact ⟨_, hwords⟩
    · left
      obtain ⟨v, rest, hwords⟩ := words_comment text
      refine ⟨nofun, fun _ => hgap, v, rest, ?_⟩
      rw [words_append_blank hne h hgap tail.gap.space, hwords]

/-- The words of a requirement: the module, and a word that begins with the version. -/
theorem words_requirement (r : Requirement) : ∃ v rest, words r.text = r.path.text :: v :: rest ∧
    r.version.text <+: v ∧ (IsWord r.path.text ∧ IsWord v ↔ r.Plain) ∧
    (r.Plain → v = r.version.text) ∧ ∀ w ∈ rest.head?, ¬ (IsWord v ∧ IsWord w) := by
  have hpath : words r.text = r.path.text :: words (r.version.text ++ r.tail.text) :=
    words_append_blank r.path.text_ne r.path.not_space r.gap_ne r.gap.space _
  have hplain : r.Plain ↔
      (IsWord r.path.text ∧ IsWord r.version.text) ∧ r.tail.Apart := by
    rw [Token.isWord_text, Token.isWord_text]
    exact ⟨fun h => ⟨⟨h.path, h.version⟩, h.apart⟩, fun h => ⟨h.1.1, h.1.2, h.2⟩⟩
  obtain ⟨hnone, hwords⟩ | ⟨-, hapart, w, rest, hwords⟩ | ⟨-, hapart, w, rest, hwords⟩ :=
    words_tail r.version.text_ne r.version.not_space r.tail
  · refine ⟨r.version.text, [], hpath.trans (congrArg _ hwords), List.prefix_refl _, ?_,
      fun _ => rfl, nofun⟩
    rw [hplain]
    exact (and_iff_left fun h => absurd hnone h).symm
  · refine ⟨r.version.text, _, hpath.trans (congrArg _ hwords), List.prefix_refl _, ?_,
      fun _ => rfl, ?_⟩
    · rw [hplain]
      exact (and_iff_left hapart).symm
    · rintro _ ⟨⟩ ⟨-, hw⟩
      exact slashes_not_word (w := []) hw
  · refine ⟨_, rest, hpath.trans (congrArg _ hwords), List.prefix_append _ _, ?_, ?_, ?_⟩
    · rw [hplain]
      exact iff_of_false (fun h => slashes_not_word h.2) fun h => hapart h.2
    · exact fun h => absurd h.apart hapart
    · rintro _ - ⟨hv, -⟩
      exact slashes_not_word hv

theorem words_line_blank (b : Blanks) : words (Line.blank b).text = [] := by
  rw [Line.text, ← List.append_nil b.chars, words_blank b.space, words_nil]

theorem words_line_comment (lead : Blanks) (text : List Char) (h : '\n' ∉ text) :
    ∃ w rest, words (Line.comment lead text h).text = ('/' :: '/' :: w) :: rest := by
  rw [Line.text, words_blank lead.space]
  exact words_comment text

theorem words_line_single (lead gap : Blanks) (h : gap.chars ≠ []) (r : Requirement) :
    words (Line.single lead gap h r).text = keyword :: words r.text := by
  rw [Line.text, words_blank lead.space]
  exact words_append_blank keyword_ne keyword_space h gap.space r.text

theorem words_line_entry (lead : Blanks) (r : Requirement) :
    words (Line.entry lead r).text = words r.text :=
  words_blank lead.space r.text

theorem words_line_close (lead : Blanks) (tail : Tail) (h : tail.Apart) :
    (tail.comment = none ∧ words (Line.close lead tail h).text = [[')']]) ∨
      (tail.comment ≠ none ∧ ∃ w rest,
        words (Line.close lead tail h).text = [')'] :: ('/' :: '/' :: w) :: rest) := by
  rw [Line.text, words_blank lead.space]
  obtain hnone | ⟨hsome, -, hwords⟩ | ⟨-, hnot, -⟩ :=
    words_tail (w := [')']) (List.cons_ne_nil _ _) (not_space_of_all (by decide)) tail
  · exact Or.inl hnone
  · exact Or.inr ⟨hsome, hwords⟩
  · exact absurd h hnot

/-- Where the first word of a head is the keyword, the next one begins with the parenthesis. -/
theorem words_line_head {h : Head} {rest : List (List Char)}
    (hwords : words (Line.head h).text = keyword :: rest) :
    ∃ w rest', rest = ('(' :: w) :: rest' := by
  rw [Line.text, Head.text, words_blank h.lead.space] at hwords
  by_cases hgap : h.gap.chars = []
  · rw [hgap, List.nil_append,
      words_prefix (w := keyword) keyword_ne keyword_space] at hwords
    have hlength := congrArg List.length (List.cons.inj hwords).1
    rw [List.takeWhile_cons_of_pos (by decide), List.length_append, List.length_cons] at hlength
    omega
  · rw [words_append_blank keyword_ne keyword_space hgap h.gap.space] at hwords
    have hparen := words_prefix (w := ['(']) (List.cons_ne_nil _ _) (not_space_of_all (by decide))
      h.tail.text
    rw [List.singleton_append] at hparen
    rw [hparen] at hwords
    exact ⟨_, _, (List.cons.inj hwords).2.symm⟩

end Words

section Text

theorem newline_not_blank (b : Blanks) : '\n' ∉ b.chars := fun h => by
  have hblank := b.blank _ h
  revert hblank
  decide

theorem newline_not_token (t : Token) : '\n' ∉ t.text := fun h =>
  absurd (t.not_space _ h) (by decide)

theorem newline_not_tail (t : Tail) : '\n' ∉ t.text := by
  rw [Tail.text, List.mem_append]
  rintro (h | h)
  · exact newline_not_blank t.gap h
  · cases hc : t.comment with
    | none =>
      rw [hc] at h
      cases h
    | some text =>
      rw [hc] at h
      simp only [List.mem_cons] at h
      obtain h | h | h := h
      · exact absurd h (by decide)
      · exact absurd h (by decide)
      · exact t.one_line text hc h

theorem newline_not_requirement (r : Requirement) : '\n' ∉ r.text := by
  simp only [Requirement.text, List.mem_append, newline_not_blank, newline_not_token,
    newline_not_tail, or_false, not_false_eq_true]

theorem newline_not_line (l : Line) : '\n' ∉ l.text := by
  have hkeyword : '\n' ∉ keyword := by decide
  cases l with
  | blank blanks => exact newline_not_blank blanks
  | comment lead text h =>
    simp only [Line.text, List.mem_append, List.mem_cons, newline_not_blank, h]
    decide
  | foreign text h => exact h.one_line
  | single lead gap h r =>
    simp only [Line.text, List.mem_append, newline_not_blank, newline_not_requirement, hkeyword,
      or_false, not_false_eq_true]
  | head h =>
    simp only [Line.text, Head.text, List.mem_append, List.mem_cons, newline_not_blank,
      newline_not_tail, hkeyword]
    decide
  | entry lead r =>
    simp only [Line.text, List.mem_append, newline_not_blank, newline_not_requirement, or_false,
      not_false_eq_true]
  | close lead tail h =>
    simp only [Line.text, List.mem_append, List.mem_cons, newline_not_blank, newline_not_tail]
    decide

theorem splitLines_text (m : GoMod) (h : m.lines ≠ []) :
    splitLines m.text = m.lines.map fun l => String.ofList l.text := by
  rw [splitLines, GoMod.text, String.toList_ofList, List.splitOn_intercalate, List.map_map]
  · rfl
  · intro s hs
    obtain ⟨l, -, rfl⟩ := List.mem_map.mp hs
    exact newline_not_line l
  · exact fun hnil => h (List.map_eq_nil_iff.mp hnil)

theorem splitLines_empty (m : GoMod) (h : m.lines = []) : splitLines m.text = [""] := by
  rw [splitLines, GoMod.text, h]
  rfl

end Text

end RivicQ.Lib.GoModFiles
