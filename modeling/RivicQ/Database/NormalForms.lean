import Mathlib.Data.List.Basic
import RivicQ.Database.Migrate

namespace RivicQ.Database.Quotations

/-- What stands between quotes in a statement, as the server reads it. -/
inductive Quotation where
  | literal (text : List Char)
  | identifier (text : List Char)
  | body (tag text : List Char)
  deriving DecidableEq

section Words

def isWordStart (c : Char) : Bool := c.isAlpha || c = '_' || 128 ≤ c.toNat

def isTagRune (c : Char) : Bool := isWordStart c || c.isDigit

/-- A word goes on with letters, digits and dollar signs. -/
def isWordRune (c : Char) : Bool := isTagRune c || c = '$'

/-- The tag of the dollar quote that begins with a dollar sign and what follows it. -/
def dollarTag (s : List Char) : Option (List Char) :=
  let tag := s.takeWhile isTagRune
  if (s.drop tag.length).head? = some '$' ∧ tag.head?.all isWordStart then some tag else none

end Words

section Lexer

/-- Where the server is in a statement; in code, with the word that has been read so far. -/
inductive State where
  | code (word : List Char)
  | literal (escapes : Bool) (text : List Char)
  | identifier (text : List Char)
  | body (tag text : List Char)
  | lineComment
  | blockComment (depth : Nat)

/-- What a rune does, by what follows it: the runes that are read with it, and what it ends. -/
def stepCode (word : List Char) (c : Char) (rest : List Char) : Nat × State :=
  if c = '\'' then (0, .literal (word = ['e'] || word = ['E']) [])
  else if c = '"' then (0, .identifier [])
  else if c = '-' ∧ rest.head? = some '-' then (1, .lineComment)
  else if c = '/' ∧ rest.head? = some '*' then (1, .blockComment 1)
  else if c = '$' ∧ word = [] then
    match dollarTag rest with
    | some tag => (tag.length + 1, .body tag [])
    | none => (0, .code [])
  else if isWordStart c || (word ≠ [] && isWordRune c) then (0, .code (word ++ [c]))
  else (0, .code [])

/-- A quote that stands twice is part of the text. -/
def stepQuoted (quote : Char) (text : List Char) (inside : List Char → State)
    (quotation : List Char → Quotation) (c : Char) (rest : List Char) :
    Nat × State × Option Quotation :=
  if c ≠ quote then (0, inside (text ++ [c]), none)
  else if rest.head? = some quote then (1, inside (text ++ [c, c]), none)
  else (0, .code [], some (quotation text))

def step : State → Char → List Char → Nat × State × Option Quotation
  | .code word, c, rest => ((stepCode word c rest).1, (stepCode word c rest).2, none)
  | .literal escapes text, c, rest =>
    if escapes ∧ c = '\\' then
      (rest.head?.toList.length, .literal escapes (text ++ c :: rest.head?.toList), none)
    else stepQuoted '\'' text (.literal escapes) .literal c rest
  | .identifier text, c, rest => stepQuoted '"' text .identifier .identifier c rest
  | .body tag text, c, rest =>
    if c = '$' ∧ (tag ++ ['$']) <+: rest then (tag.length + 1, .code [], some (.body tag text))
    else (0, .body tag (text ++ [c]), none)
  | .lineComment, c, _ => (0, if c = '\n' ∨ c = '\r' then .code [] else .lineComment, none)
  | .blockComment depth, c, rest =>
    if c = '/' ∧ rest.head? = some '*' then (1, .blockComment (depth + 1), none)
    else if c = '*' ∧ rest.head? = some '/' then
      (1, if depth ≤ 1 then .code [] else .blockComment (depth - 1), none)
    else (0, .blockComment depth, none)

/-- A quote that is not closed goes on to the end. -/
def State.unfinished : State → List Quotation
  | .literal _ text => [.literal text]
  | .identifier text => [.identifier text]
  | .body tag text => [.body tag text]
  | .code _ | .lineComment | .blockComment _ => []

def quotationsFrom : Nat → State → List Char → List Quotation
  | _, st, [] => st.unfinished
  | skip + 1, st, _ :: rest => quotationsFrom skip st rest
  | 0, st, c :: rest =>
    (step st c rest).2.2.toList ++ quotationsFrom (step st c rest).1 (step st c rest).2.1 rest

/-- The string literals, quoted identifiers and dollar-quoted bodies of a statement. -/
def quotations (stmt : String) : List Quotation := quotationsFrom 0 (.code []) stmt.toList

example : quotations "SELECT 'it''s', E'a\\'b' -- 'no'\nFROM \"a$b\" $x$ '$$' $x$" =
    [.literal "it''s".toList, .literal "a\\'b".toList, .identifier "a$b".toList,
      .body ['x'] " '$$' ".toList] := by
  decide

end Lexer

end RivicQ.Database.Quotations

namespace RivicQ.Database.NormalForms

open RivicQ.Database.Migrate

/-- The white space that is collapsed. -/
def Blank (c : Char) : Prop := c = '\n' ∨ c = '\r' ∨ c = '\t' ∨ c = ' '

instance (c : Char) : Decidable (Blank c) := inferInstanceAs (Decidable (_ ∨ _))

/-- A rune that does not begin a comment or a quote with what follows. -/
def Alone (r : Char) (s : List Char) : Prop := r = '-' ∨ r = '$' → s.head? ≠ some r

/-- The mode and the flag in which the rest of a text is read. -/
def scan : Mode → Bool → List Char → Mode × Bool
  | m, lastSpace, [] => (m, lastSpace)
  | .lineComment, lastSpace, r :: rest =>
    if r = '\n' then scan .plain true rest else scan .lineComment lastSpace rest
  | .dollarQuote, lastSpace, '$' :: '$' :: rest => scan .plain lastSpace rest
  | .dollarQuote, lastSpace, _ :: rest => scan .dollarQuote lastSpace rest
  | .plain, lastSpace, '-' :: '-' :: rest => scan .lineComment lastSpace rest
  | .plain, lastSpace, '$' :: '$' :: rest => scan .dollarQuote lastSpace rest
  | .plain, _, r :: rest => scan .plain (decide (Blank r)) rest

variable {m : Mode} {b b' : Bool} {r : Char} {s p q t x y : List Char}

section Steps

theorem head_ne_iff {c : Char} : s.head? ≠ some c ↔ ∀ rest, s ≠ c :: rest := by
  cases s with
  | nil => exact iff_of_true nofun fun _ => nofun
  | cons d s => simp

theorem normalizeFrom_blank (h : Blank r) : normalizeFrom .plain b (r :: s) =
    if b then normalizeFrom .plain true s else ' ' :: normalizeFrom .plain true s := by
  obtain rfl | rfl | rfl | rfl := h <;> rfl

theorem normalizeFrom_char (h : ¬ Blank r) (halone : Alone r s) :
    normalizeFrom .plain b (r :: s) = r :: normalizeFrom .plain false s := by
  rw [normalizeFrom]
  · exact if_neg h
  · rintro rest rfl
    exact head_ne_iff.mp (halone (.inl rfl)) rest
  · rintro rest rfl
    exact head_ne_iff.mp (halone (.inr rfl)) rest

theorem normalizeFrom_body (h : r = '$' → s.head? ≠ some '$') :
    normalizeFrom .dollarQuote b (r :: s) = r :: normalizeFrom .dollarQuote b s := by
  rw [normalizeFrom]
  exact fun rest hr => head_ne_iff.mp (h hr) rest

theorem normalizeFrom_line (h : r ≠ '\n') :
    normalizeFrom .lineComment b (r :: s) = normalizeFrom .lineComment b s := if_neg h

theorem scan_blank (h : Blank r) : scan .plain b (r :: s) = scan .plain true s := by
  obtain rfl | rfl | rfl | rfl := h <;> rfl

theorem scan_char (h : ¬ Blank r) (halone : Alone r s) :
    scan .plain b (r :: s) = scan .plain false s := by
  rw [scan]
  · rw [decide_eq_false h]
  · rintro rest rfl
    exact head_ne_iff.mp (halone (.inl rfl)) rest
  · rintro rest rfl
    exact head_ne_iff.mp (halone (.inr rfl)) rest

theorem scan_body (h : r = '$' → s.head? ≠ some '$') :
    scan .dollarQuote b (r :: s) = scan .dollarQuote b s := by
  rw [scan]
  exact fun rest hr => head_ne_iff.mp (h hr) rest

theorem scan_line (h : r ≠ '\n') : scan .lineComment b (r :: s) = scan .lineComment b s := if_neg h

/-- A text is read rune by rune, or by two runes that belong together. -/
theorem read_induction {motive : Mode → Bool → List Char → Prop}
    (nil : ∀ m b, motive m b [])
    (line : ∀ b r s, r ≠ '\n' → motive .lineComment b s → motive .lineComment b (r :: s))
    (lineEnd : ∀ b s, motive .plain true s → motive .lineComment b ('\n' :: s))
    (body : ∀ b r s, (r = '$' → s.head? ≠ some '$') → motive .dollarQuote b s →
      motive .dollarQuote b (r :: s))
    (close : ∀ b s, motive .plain b s → motive .dollarQuote b ('$' :: '$' :: s))
    (comment : ∀ b s, motive .lineComment b s → motive .plain b ('-' :: '-' :: s))
    (quote : ∀ b s, motive .dollarQuote b s → motive .plain b ('$' :: '$' :: s))
    (blank : ∀ b r s, Blank r → motive .plain true s → motive .plain b (r :: s))
    (char : ∀ b r s, ¬ Blank r → Alone r s → motive .plain false s → motive .plain b (r :: s))
    (m : Mode) (b : Bool) (s : List Char) : motive m b s := by
  induction m, b, s using normalizeFrom.induct with
  | case1 m b => exact nil m b
  | case2 b s ih => exact lineEnd b s ih
  | case3 b r s hr ih => exact line b r s hr ih
  | case4 b s ih => exact close b s ih
  | case5 b r s hr ih => exact body b r s (fun h => head_ne_iff.mpr fun rest => hr rest h) ih
  | case6 b s ih => exact comment b s ih
  | case7 b s ih => exact quote b s ih
  | case8 r s _ _ hblank ih => exact blank true r s hblank ih
  | case9 b r s _ _ hblank _ ih => exact blank b r s hblank ih
  | case10 b r s hdash hdollar hblank ih =>
    refine char b r s hblank ?_ ih
    rintro (rfl | rfl)
    · exact head_ne_iff.mpr fun rest => hdash rest rfl
    · exact head_ne_iff.mpr fun rest => hdollar rest rfl

end Steps

section Append

/-- What is read next does not belong to the last rune that has been read. -/
def Apart (m : Mode) (b : Bool) (p q : List Char) : Prop :=
  ∀ c, q.head? = some c → c = '-' ∨ c = '$' → (scan m b (p ++ [c])).1 = (scan m b p).1

theorem head_append_ne {c : Char} (hp : p.head? ≠ some c) (hq : p = [] → q.head? ≠ some c) :
    (p ++ q).head? ≠ some c := by
  cases p with
  | nil => exact hq rfl
  | cons d p => exact hp

theorem head_prefix_ne {c : Char} (h : p <+: s) (hs : s.head? ≠ some c) : p.head? ≠ some c := by
  obtain ⟨q, rfl⟩ := h
  cases p with
  | nil => exact nofun
  | cons d p => exact hs

theorem alone_append (h : Alone r p) (hq : p = [] → Alone r q) : Alone r (p ++ q) :=
  fun hr => head_append_ne (h hr) fun hp => hq hp hr

/-- A text is read as its front and then its back. -/
theorem read_append (h : Apart m b p q) :
    normalizeFrom m b (p ++ q) =
        normalizeFrom m b p ++ normalizeFrom (scan m b p).1 (scan m b p).2 q ∧
      scan m b (p ++ q) = scan (scan m b p).1 (scan m b p).2 q := by
  induction m, b, p using read_induction with
  | nil m b =>
    cases m <;> exact ⟨rfl, rfl⟩
  | line b r s hr ih =>
    simp only [Apart, List.cons_append, normalizeFrom_line hr, scan_line hr] at h ⊢
    exact ih h
  | lineEnd b s ih =>
    obtain ⟨hout, hscan⟩ := ih h
    exact ⟨congrArg (' ' :: ·) hout, hscan⟩
  | body b r s hr ih =>
    have hq : r = '$' → s = [] → q.head? ≠ some '$' := by
      rintro rfl rfl hq
      exact nomatch h '$' hq (.inr rfl)
    have happend : ∀ t, (s = [] → t.head? = q.head?) → r = '$' → (s ++ t).head? ≠ some '$' :=
      fun t ht hdollar => head_append_ne (hr hdollar) fun hs => ht hs ▸ hq hdollar hs
    have hapart : Apart .dollarQuote b s q := by
      intro c hc hmark
      have hjoin := h c hc hmark
      rw [List.cons_append, scan_body (happend [c] fun _ => hc.symm), scan_body hr] at hjoin
      exact hjoin
    obtain ⟨hout, hscan⟩ := ih hapart
    rw [List.cons_append, normalizeFrom_body (happend q fun _ => rfl), normalizeFrom_body hr,
      scan_body (happend q fun _ => rfl), scan_body hr]
    exact ⟨congrArg (r :: ·) hout, hscan⟩
  | close b s ih =>
    obtain ⟨hout, hscan⟩ := ih h
    exact ⟨congrArg ('$' :: '$' :: ·) hout, hscan⟩
  | comment b s ih => exact ih h
  | quote b s ih =>
    obtain ⟨hout, hscan⟩ := ih h
    exact ⟨congrArg ('$' :: '$' :: ·) hout, hscan⟩
  | blank b r s hr ih =>
    simp only [Apart, List.cons_append, scan_blank hr] at h ⊢
    obtain ⟨hout, hscan⟩ := ih h
    rw [normalizeFrom_blank hr, normalizeFrom_blank hr, hout]
    exact ⟨by split_ifs <;> rfl, hscan⟩
  | char b r s hr halone ih =>
    have hq : s = [] → Alone r q := by
      rintro rfl hmark hq
      have hjoin := h r hq hmark
      obtain rfl | rfl := hmark
      · exact nomatch hjoin
      · exact nomatch hjoin
    have happend : ∀ t, (s = [] → t.head? = q.head?) → Alone r (s ++ t) := by
      refine fun t ht => alone_append halone fun hs hmark => ?_
      rw [ht hs]
      exact hq hs hmark
    have hapart : Apart .plain false s q := by
      intro c hc hmark
      have hjoin := h c hc hmark
      rw [List.cons_append, scan_char hr (happend [c] fun _ => hc.symm),
        scan_char hr halone] at hjoin
      exact hjoin
    obtain ⟨hout, hscan⟩ := ih hapart
    rw [List.cons_append, normalizeFrom_char hr (happend q fun _ => rfl),
      normalizeFrom_char hr halone, scan_char hr (happend q fun _ => rfl), scan_char hr halone]
    exact ⟨congrArg (r :: ·) hout, hscan⟩

/-- However much of a text follows, its first rune is read alone. -/
theorem scan_body_split (hr : r = '$' → s.head? ≠ some '$') :
    ∀ p, p <+: s → scan .dollarQuote b ([r] ++ p) = scan .dollarQuote b p :=
  fun _ hp => scan_body fun hdollar => head_prefix_ne hp (hr hdollar)

theorem scan_char_split (hr : ¬ Blank r) (halone : Alone r s) :
    ∀ p, p <+: s → scan .plain b ([r] ++ p) = scan .plain false p :=
  fun _ hp => scan_char hr fun hmark => head_prefix_ne hp (halone hmark)

theorem apart_of_blank (h : Blank r) : Apart m b p (r :: q) := by
  intro c hc hmark
  obtain rfl := Option.some.inj hc
  obtain rfl | rfl := hmark
  · exact absurd h (by decide)
  · exact absurd h (by decide)

end Append

section Twice

/-- What is read of the output of a mode. -/
def shadow : Mode → Mode
  | .plain => .plain
  | .lineComment => .plain
  | .dollarQuote => .dollarQuote

theorem head_line : (normalizeFrom .lineComment b s).head? = none ∨
    (normalizeFrom .lineComment b s).head? = some ' ' := by
  induction s with
  | nil => exact .inl rfl
  | cons r s ih =>
    by_cases hr : r = '\n'
    · subst hr
      exact .inr rfl
    · rw [normalizeFrom_line hr]
      exact ih

theorem head_body (h : (normalizeFrom .dollarQuote b s).head? = some '$') : s.head? = some '$' := by
  cases s with
  | nil => cases h
  | cons r s =>
    by_cases hr : r = '$' → s.head? ≠ some '$'
    · rw [normalizeFrom_body hr] at h
      exact h
    · exact congrArg some (Classical.not_imp.mp hr).1

/-- After a rune that is seen, a mark is only written for itself. -/
theorem head_plain {c : Char} (hc : c = '-' ∨ c = '$')
    (h : (normalizeFrom .plain false s).head? = some c) : s.head? = some c := by
  have hspace : c ≠ ' ' := by
    obtain rfl | rfl := hc <;> decide
  revert h
  generalize hb : false = b
  generalize hm : Mode.plain = m
  induction m, b, s using read_induction with
  | nil m b => exact nofun
  | line => cases hm
  | lineEnd => cases hm
  | body => cases hm
  | close => cases hm
  | comment b s _ =>
    intro h
    obtain hnone | hsome := head_line (b := b) (s := s)
    · exact nomatch hnone.symm.trans h
    · exact absurd (Option.some.inj (hsome.symm.trans h)).symm hspace
  | quote b s _ => exact id
  | blank b r s hr _ =>
    subst hb
    rw [normalizeFrom_blank hr]
    exact fun h => absurd (Option.some.inj h).symm hspace
  | char b r s hr halone _ =>
    rw [normalizeFrom_char hr halone]
    exact id

theorem alone_written (h : Alone r s) : Alone r (normalizeFrom .plain false s) :=
  fun hr hhead => h hr (head_plain hr hhead)

/-- The output is read in the same mode, and a space is last in it only if one was written last. -/
theorem scan_shadow (m : Mode) (b : Bool) (s : List Char) (b' : Bool) (hb : b' = true → b = true) :
    (scan (shadow m) b' (normalizeFrom m b s)).1 = shadow (scan m b s).1 ∧
      ((scan (shadow m) b' (normalizeFrom m b s)).2 = true → (scan m b s).2 = true) := by
  induction m, b, s using read_induction generalizing b' with
  | nil m b => cases m <;> exact ⟨rfl, hb⟩
  | line b r s hr ih =>
    rw [normalizeFrom_line hr, scan_line hr]
    exact ih b' hb
  | lineEnd b s ih => exact ih true id
  | body b r s hr ih =>
    have hwritten : r = '$' → (normalizeFrom .dollarQuote b s).head? ≠ some '$' :=
      fun hdollar hhead => hr hdollar (head_body hhead)
    rw [normalizeFrom_body hr, scan_body hr, shadow, scan_body hwritten]
    exact ih b' hb
  | close b s ih => exact ih b' hb
  | comment b s ih => exact ih b' hb
  | quote b s ih => exact ih b' hb
  | blank b r s hr ih =>
    rw [normalizeFrom_blank hr, scan_blank hr]
    cases b with
    | true => exact ih b' fun _ => rfl
    | false => exact ih true id
  | char b r s hr halone ih =>
    rw [normalizeFrom_char hr halone, scan_char hr halone, shadow,
      scan_char hr (alone_written halone)]
    exact ih false id

theorem scan_mono (m : Mode) (b : Bool) (s : List Char) (b' : Bool) (hb : b' = true → b = true) :
    (scan m b' s).1 = (scan m b s).1 ∧ ((scan m b' s).2 = true → (scan m b s).2 = true) := by
  induction m, b, s using read_induction generalizing b' with
  | nil m b => cases m <;> exact ⟨rfl, hb⟩
  | line b r s hr ih =>
    rw [scan_line hr, scan_line hr]
    exact ih b' hb
  | lineEnd b s ih => exact ⟨rfl, id⟩
  | body b r s hr ih =>
    rw [scan_body hr, scan_body hr]
    exact ih b' hb
  | close b s ih => exact ih b' hb
  | comment b s ih => exact ih b' hb
  | quote b s ih => exact ih b' hb
  | blank b r s hr ih =>
    rw [scan_blank hr, scan_blank hr]
    exact ⟨rfl, id⟩
  | char b r s hr halone ih =>
    rw [scan_char hr halone, scan_char hr halone]
    exact ⟨rfl, id⟩

theorem length_normalizeFrom (m : Mode) (b : Bool) (s : List Char) :
    (normalizeFrom m b s).length ≤ s.length := by
  induction m, b, s using read_induction with
  | nil m b => exact Nat.le_refl 0
  | line b r s hr ih =>
    rw [normalizeFrom_line hr]
    exact Nat.le_succ_of_le ih
  | lineEnd b s ih => exact Nat.succ_le_succ ih
  | body b r s hr ih =>
    rw [normalizeFrom_body hr]
    exact Nat.succ_le_succ ih
  | close b s ih => exact Nat.succ_le_succ (Nat.succ_le_succ ih)
  | comment b s ih => exact Nat.le_succ_of_le (Nat.le_succ_of_le ih)
  | quote b s ih => exact Nat.succ_le_succ (Nat.succ_le_succ ih)
  | blank b r s hr ih =>
    rw [normalizeFrom_blank hr]
    split_ifs
    · exact Nat.le_succ_of_le ih
    · exact Nat.succ_le_succ ih
  | char b r s hr halone ih =>
    rw [normalizeFrom_char hr halone]
    exact Nat.succ_le_succ ih

end Twice

section Origins

/-- A rune that the next step writes, and what is written after it. -/
inductive Writes : Mode → Bool → List Char → Char → List Char → Prop where
  | blank {r : Char} {q : List Char} (hr : Blank r) :
      Writes .plain false (r :: q) ' ' (normalizeFrom .plain true q)
  | comment {b : Bool} {text q : List Char} (ht : '\n' ∉ text) :
      Writes .plain b ('-' :: '-' :: (text ++ '\n' :: q)) ' ' (normalizeFrom .plain true q)
  | char {b : Bool} {r : Char} {q : List Char} (hr : ¬ Blank r) (halone : Alone r q) :
      Writes .plain b (r :: q) r (normalizeFrom .plain false q)
  | body {b : Bool} {r : Char} {q : List Char} (h : r = '$' → q.head? ≠ some '$') :
      Writes .dollarQuote b (r :: q) r (normalizeFrom .dollarQuote b q)

/-- A rune that is written comes from where a text splits. -/
def Origin (m : Mode) (b : Bool) (s x : List Char) (r : Char) (y : List Char) : Prop :=
  ∃ p q, s = p ++ q ∧ Apart m b p q ∧ normalizeFrom m b p = x ∧
    Writes (scan m b p).1 (scan m b p).2 q r y

theorem apart_nil : Apart m b [] q := by
  rintro c - (rfl | rfl)
  · cases m <;> rfl
  · cases m <;> rfl

theorem dollars_eq {r : Char} (hr : r ≠ '$') (h : '$' :: '$' :: t = x ++ r :: y) :
    ∃ x', x = '$' :: '$' :: x' ∧ t = x' ++ r :: y := by
  obtain _ | ⟨_, _ | ⟨_, x⟩⟩ := x
  · exact absurd (List.cons.inj h).1.symm hr
  · exact absurd (List.cons.inj (List.cons.inj h).2).1.symm hr
  · obtain ⟨rfl, hcons⟩ := List.cons.inj h
    obtain ⟨rfl, hrest⟩ := List.cons.inj hcons
    exact ⟨x, rfl, hrest⟩

/-- What comes before a text does not matter for where a rune comes from. -/
theorem Origin.front (tok out : List Char) {m' : Mode} {b' : Bool} {r : Char}
    (hout : ∀ p, p <+: s → normalizeFrom m b (tok ++ p) = out ++ normalizeFrom m' b' p)
    (hscan : ∀ p, p <+: s → scan m b (tok ++ p) = scan m' b' p) (h : Origin m' b' s x r y) :
    Origin m b (tok ++ s) (out ++ x) r y := by
  obtain ⟨p, q, rfl, hapart, rfl, hwrites⟩ := h
  have hp : p <+: p ++ q := List.prefix_append p q
  refine ⟨tok ++ p, q, (List.append_assoc ..).symm, ?_, hout p hp, (hscan p hp).symm ▸ hwrites⟩
  intro c hc hmark
  have hnext : p ++ [c] <+: p ++ q := by
    obtain ⟨rest, rfl⟩ := List.head?_eq_some_iff.mp hc
    exact (List.prefix_append_right_inj p).mpr (List.prefix_append [c] rest)
  rw [List.append_assoc, hscan _ hnext, hscan p hp]
  exact hapart c hc hmark

/-- A comment that is open ends, or the rune comes from after it. -/
theorem exists_origin (m : Mode) (b : Bool) (s x : List Char) {r : Char} (y : List Char)
    (hr : r ≠ '$') (h : normalizeFrom m b s = x ++ r :: y) :
    (m = .lineComment ∧ ∃ text q, s = text ++ '\n' :: q ∧ '\n' ∉ text ∧ x = [] ∧ r = ' ' ∧
      y = normalizeFrom .plain true q) ∨ Origin m b s x r y := by
  induction m, b, s using read_induction generalizing x with
  | nil m b => exact absurd h.symm (by simp [normalizeFrom])
  | line b d s hd ih =>
    rw [normalizeFrom_line hd] at h
    obtain ⟨-, text, q, rfl, ht, hrest⟩ | horigin := ih x h
    · exact .inl ⟨rfl, d :: text, q, rfl, List.not_mem_cons_of_ne_of_not_mem hd.symm ht, hrest⟩
    · exact .inr (horigin.front [d] [] (fun _ _ => normalizeFrom_line hd) fun _ _ =>
        scan_line hd)
  | lineEnd b s ih =>
    cases x with
    | nil =>
      obtain ⟨rfl, rfl⟩ := List.cons.inj h
      exact .inl ⟨rfl, [], s, rfl, List.not_mem_nil, rfl, rfl, rfl⟩
    | cons d x =>
      obtain ⟨rfl, hx⟩ := List.cons.inj h
      have horigin := (ih x hx).resolve_left fun hline => nomatch hline.1
      exact .inr (horigin.front ['\n'] [' '] (fun _ _ => rfl) fun _ _ => rfl)
  | body b d s hd ih =>
    rw [normalizeFrom_body hd] at h
    cases x with
    | nil =>
      obtain ⟨rfl, rfl⟩ := List.cons.inj h
      exact .inr ⟨[], d :: s, rfl, apart_nil, rfl, .body hd⟩
    | cons e x =>
      obtain ⟨rfl, hx⟩ := List.cons.inj h
      have horigin := (ih x hx).resolve_left fun hline => nomatch hline.1
      have hbody : ∀ p, p <+: s → d = '$' → p.head? ≠ some '$' :=
        fun p hp hdollar => head_prefix_ne hp (hd hdollar)
      exact .inr (horigin.front [d] [d]
        (fun p hp => normalizeFrom_body (hbody p hp)) (scan_body_split hd))
  | close b s ih =>
    obtain ⟨x, rfl, hx⟩ := dollars_eq hr h
    have horigin := (ih x hx).resolve_left fun hline => nomatch hline.1
    exact .inr (horigin.front ['$', '$'] ['$', '$'] (fun _ _ => rfl)
      fun _ _ => rfl)
  | comment b s ih =>
    obtain ⟨-, text, q, rfl, ht, rfl, rfl, rfl⟩ | horigin := ih x h
    · exact .inr ⟨[], _, rfl, apart_nil, rfl, .comment ht⟩
    · exact .inr (horigin.front ['-', '-'] [] (fun _ _ => rfl) fun _ _ => rfl)
  | quote b s ih =>
    obtain ⟨x, rfl, hx⟩ := dollars_eq hr h
    have horigin := (ih x hx).resolve_left fun hline => nomatch hline.1
    exact .inr (horigin.front ['$', '$'] ['$', '$'] (fun _ _ => rfl)
      fun _ _ => rfl)
  | blank b d s hd ih =>
    have hscan : ∀ p, p <+: s → scan .plain b ([d] ++ p) = scan .plain true p :=
      fun p _ => scan_blank hd
    rw [normalizeFrom_blank hd] at h
    cases b with
    | true =>
      have horigin := (ih x h).resolve_left fun hline => nomatch hline.1
      exact .inr (horigin.front [d] [] (fun p _ => normalizeFrom_blank hd) hscan)
    | false =>
      cases x with
      | nil =>
        obtain ⟨rfl, rfl⟩ := List.cons.inj h
        exact .inr ⟨[], d :: s, rfl, apart_nil, rfl, .blank hd⟩
      | cons e x =>
        obtain ⟨rfl, hx⟩ := List.cons.inj h
        have horigin := (ih x hx).resolve_left fun hline => nomatch hline.1
        exact .inr (horigin.front [d] [' '] (fun p _ => normalizeFrom_blank hd)
          hscan)
  | char b d s hd halone ih =>
    rw [normalizeFrom_char hd halone] at h
    cases x with
    | nil =>
      obtain ⟨rfl, rfl⟩ := List.cons.inj h
      exact .inr ⟨[], d :: s, rfl, apart_nil, rfl, .char hd halone⟩
    | cons e x =>
      obtain ⟨rfl, hx⟩ := List.cons.inj h
      have horigin := (ih x hx).resolve_left fun hline => nomatch hline.1
      have hchar : ∀ p, p <+: s → Alone d p := fun p hp hmark => head_prefix_ne hp (halone hmark)
      exact .inr (horigin.front [d] [d]
        (fun p hp => normalizeFrom_char hd (hchar p hp)) (scan_char_split hd halone))

end Origins

section Drops

/-- Outside quotes, there is no white space but single runes of one kind, and no comment. -/
def Clean (m : Mode) (b : Bool) (t : List Char) : Prop :=
  ∀ x r y, t = x ++ r :: y → (scan m b x).1 = .plain →
    (Blank r → r = ' ') ∧ (r = '-' → y.head? ≠ some '-')

/-- A space comes where one has been written. -/
def Dropped (m : Mode) (b : Bool) (t : List Char) : Prop :=
  ∃ x y, t = x ++ ' ' :: y ∧ scan m b x = (.plain, true)

variable {m' : Mode} {tok : List Char}

theorem Clean.tail (h : Clean m b (tok ++ s))
    (hscan : ∀ p, p <+: s → scan m b (tok ++ p) = scan m' b' p) : Clean m' b' s := by
  rintro x r y rfl hmode
  refine h (tok ++ x) r y (List.append_assoc ..).symm ?_
  rw [hscan x (List.prefix_append _ _)]
  exact hmode

theorem dropped_append (hscan : ∀ p, p <+: s → scan m b (tok ++ p) = scan m' b' p)
    (htok : ∀ x y, tok = x ++ ' ' :: y → scan m b x ≠ (.plain, true)) :
    Dropped m b (tok ++ s) ↔ Dropped m' b' s := by
  constructor
  · rintro ⟨x, y, h, hx⟩
    obtain ⟨z, rfl, rfl⟩ | ⟨z, rfl, hz⟩ := List.append_eq_append_iff.mp h
    · exact ⟨z, y, rfl, (hscan z (List.prefix_append _ _)).symm.trans hx⟩
    · cases z with
      | nil =>
        refine ⟨[], y, hz.symm, ?_⟩
        rw [← hscan [] List.nil_prefix, List.append_nil, List.append_nil]
        exact hx
      | cons c z =>
        obtain ⟨rfl, -⟩ := List.cons.inj hz
        exact absurd hx (htok x z rfl)
  · rintro ⟨x, y, rfl, hx⟩
    exact ⟨tok ++ x, y, (List.append_assoc ..).symm, (hscan x (List.prefix_append _ _)).trans hx⟩

/-- A text is its own output, or a space is dropped in it. -/
def Settles (m : Mode) (b : Bool) (t : List Char) : Prop :=
  (normalizeFrom m b t = t ∧ ¬ Dropped m b t) ∨
    ((normalizeFrom m b t).length < t.length ∧ Dropped m b t)

theorem Settles.front (h : Settles m' b' s)
    (hout : normalizeFrom m b (tok ++ s) = tok ++ normalizeFrom m' b' s)
    (hscan : ∀ p, p <+: s → scan m b (tok ++ p) = scan m' b' p)
    (htok : ∀ x y, tok = x ++ ' ' :: y → scan m b x ≠ (.plain, true)) : Settles m b (tok ++ s) := by
  unfold Settles
  rw [hout, dropped_append hscan htok]
  obtain ⟨hself, hdropped⟩ | ⟨hlength, hdropped⟩ := h
  · exact .inl ⟨by rw [hself], hdropped⟩
  · refine .inr ⟨?_, hdropped⟩
    rw [List.length_append, List.length_append]
    exact Nat.add_lt_add_left hlength _

theorem singleton_eq {c d : Char} (h : [d] = x ++ c :: y) : x = [] ∧ d = c := by
  obtain _ | ⟨e, x⟩ := x
  · exact ⟨rfl, (List.cons.inj h).1⟩
  · exact absurd (List.cons.inj h).2 (by simp)

theorem dollars_ne (x y : List Char) : ['$', '$'] ≠ x ++ ' ' :: y := by
  intro h
  have hmem : ' ' ∈ ['$', '$'] := h ▸ List.mem_append_right x List.mem_cons_self
  exact absurd hmem (by decide)

theorem settles_of_clean (m : Mode) (b : Bool) (t : List Char) (hm : m ≠ .lineComment)
    (h : Clean m b t) : Settles m b t := by
  induction m, b, t using read_induction with
  | nil m b => exact .inl ⟨rfl, fun ⟨x, y, hx, _⟩ => absurd hx (by simp)⟩
  | line => exact absurd rfl hm
  | lineEnd => exact absurd rfl hm
  | body b d s hd ih =>
    have hscan := scan_body_split (b := b) hd
    refine (ih hm (h.tail hscan)).front (normalizeFrom_body hd) hscan ?_
    intro x y hx hplain
    obtain ⟨rfl, -⟩ := singleton_eq hx
    cases hplain
  | close b s ih =>
    have hscan : ∀ p, p <+: s → scan .dollarQuote b (['$', '$'] ++ p) = scan .plain b p :=
      fun _ _ => rfl
    exact (ih nofun (h.tail hscan)).front rfl hscan fun x y hx => absurd hx (dollars_ne x y)
  | comment b s _ => exact absurd rfl ((h [] '-' ('-' :: s) rfl rfl).2 rfl)
  | quote b s ih =>
    have hscan : ∀ p, p <+: s → scan .plain b (['$', '$'] ++ p) = scan .dollarQuote b p :=
      fun _ _ => rfl
    exact (ih nofun (h.tail hscan)).front rfl hscan fun x y hx => absurd hx (dollars_ne x y)
  | blank b d s hd ih =>
    obtain rfl := (h [] d s rfl rfl).1 hd
    cases b with
    | true =>
      refine .inr ⟨?_, [], s, rfl, rfl⟩
      rw [normalizeFrom_blank hd]
      exact Nat.lt_succ_of_le (length_normalizeFrom _ _ _)
    | false =>
      have hscan : ∀ p, p <+: s → scan .plain false ([' '] ++ p) = scan .plain true p :=
        fun _ _ => rfl
      refine (ih nofun (h.tail hscan)).front rfl hscan ?_
      intro x y hx hspace
      obtain ⟨rfl, -⟩ := singleton_eq hx
      cases hspace
  | char b d s hd halone ih =>
    have hscan := scan_char_split (b := b) hd halone
    refine (ih nofun (h.tail hscan)).front (normalizeFrom_char hd halone) hscan ?_
    exact fun x y hx => absurd (.inr (.inr (.inr (singleton_eq hx).2))) hd

end Drops

end RivicQ.Database.NormalForms
