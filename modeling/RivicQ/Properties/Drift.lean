import Mathlib.Logic.Relation
import RivicQ.Database.NormalForms
import RivicQ.Properties.Checksums

namespace RivicQ.Properties.Drift

open RivicQ.Lib.GoStrings RivicQ.Database.Migrate RivicQ.Database.NormalForms
open RivicQ.Database.Quotations RivicQ.Properties.Checksums

variable {m : Mode} {b b' : Bool} {r c : Char} {s t p q x y o tok : List Char}

section Joins

/-- Nothing that comes next belongs to the last rune of a comment, or of a text where a space is
last. -/
theorem apart_of_closed
    (h : (scan m b p).1 = .lineComment ∨ scan m b p = (.plain, true)) : Apart m b p q := by
  intro c _ hmark
  induction m, b, p using read_induction with
  | nil m b =>
    obtain rfl | hplain := h
    · obtain rfl | rfl := hmark <;> rfl
    · obtain ⟨rfl, rfl⟩ := Prod.mk.inj hplain
      obtain rfl | rfl := hmark <;> rfl
  | line b r s hr ih =>
    rw [List.cons_append, scan_line hr, scan_line hr] at *
    exact ih h
  | lineEnd b s ih => exact ih h
  | body b r s hr ih =>
    rw [scan_body hr] at h ⊢
    have hnext : r = '$' → (s ++ [c]).head? ≠ some '$' := by
      refine fun hdollar => head_append_ne (hr hdollar) ?_
      rintro rfl
      obtain h | h := h <;> cases h
    rw [List.cons_append, scan_body hnext]
    exact ih h
  | close b s ih => exact ih h
  | comment b s ih => exact ih h
  | quote b s ih => exact ih h
  | blank b r s hr ih =>
    rw [scan_blank hr] at h
    rw [List.cons_append, scan_blank hr, scan_blank hr]
    exact ih h
  | char b r s hr halone ih =>
    rw [scan_char hr halone] at h ⊢
    have hnext : Alone r (s ++ [c]) := by
      refine alone_append halone ?_
      rintro rfl
      obtain h | h := h <;> cases h
    rw [List.cons_append, scan_char hr hnext]
    exact ih h

theorem apart_head (h : Apart m b p q) (hhead : s.head? = q.head?) : Apart m b p s :=
  fun c hc => h c (hhead ▸ hc)

theorem scan_append (h : Apart m b p q) :
    scan m b (p ++ q) = scan (scan m b p).1 (scan m b p).2 q := (read_append h).2

theorem apart_token (h : Apart m b p (tok ++ s)) (htok : tok ≠ []) (q : List Char) :
    Apart m b p (tok ++ q) := by
  refine apart_head h ?_
  obtain ⟨c, tok, rfl⟩ := List.exists_cons_of_ne_nil htok
  rfl

/-- What is read behind a front is apart from what follows it. -/
theorem apart_append (h : Apart m b p (tok ++ s)) (htok : tok ≠ [])
    (hs : Apart (scan m b p).1 (scan m b p).2 tok s) : Apart m b (p ++ tok) s := by
  have hfront : Apart m b p tok := by
    have htoken := apart_token h htok []
    rwa [List.append_nil] at htoken
  intro c hc hmark
  rw [List.append_assoc, scan_append (apart_token h htok [c]), scan_append hfront]
  exact hs c hc hmark

theorem apart_of_not_mark (hc : c ≠ '-' ∧ c ≠ '$') : Apart m b p (c :: q) := by
  intro d hd hmark
  obtain rfl := Option.some.inj hd
  exact (hmark.elim hc.1 hc.2).elim

theorem not_mark_of_isSpace (hr : isSpace r = true) : r ≠ '-' ∧ r ≠ '$' := by
  constructor
  · rintro rfl
    exact absurd hr (by decide)
  · rintro rfl
    exact absurd hr (by decide)

theorem apart_of_isSpace (hr : isSpace r = true) : Apart m b p (r :: q) :=
  apart_of_not_mark (not_mark_of_isSpace hr)

theorem alone_of_isSpace (hr : isSpace r = true) : Alone r s :=
  fun hmark => (hmark.elim (not_mark_of_isSpace hr).1 (not_mark_of_isSpace hr).2).elim

end Joins

section Edits

/-- How a text is read in a mode does not depend on whether a space was written last. -/
def FreeIn (m : Mode) (q : List Char) : Prop :=
  ∀ x r y, q = x ++ r :: y → Blank r → (scan m true x).1 = .plain → scan m true x = scan m false x

/-- A change of the layout, as the text is read without regard to literals, quoted identifiers and
tags. -/
inductive Edit : List Char → List Char → Prop where
  /-- White space for a space. -/
  | blank {p q : List Char} {r : Char} (hp : Outside p) (hr : Blank r) :
      Edit (p ++ r :: q) (p ++ ' ' :: q)
  /-- White space behind white space. -/
  | drop {p q : List Char} {r : Char} (hp : Outside p) (hspaced : spaced p = true) (hr : Blank r) :
      Edit (p ++ r :: q) (p ++ q)
  /-- The text of a comment. -/
  | text {p q : List Char} {r : Char} (hp : (scan .plain false p).1 = .lineComment)
      (hr : r ≠ '\n') : Edit (p ++ r :: q) (p ++ q)
  /-- An empty comment, where no space was written last. -/
  | comment {p q : List Char} (hp : Opens p) (hspaced : spaced p = false) :
      Edit (p ++ '-' :: '-' :: '\n' :: q) (p ++ ' ' :: q)
  /-- A comment that does not end. -/
  | finish {p : List Char} (hp : Opens p) : Edit (p ++ ['-', '-']) p
  /-- White space of any kind at the end. -/
  | back {p : List Char} {r : Char} (hr : isSpace r = true) : Edit (p ++ [r]) p
  /-- White space of any kind at the front. -/
  | front {q : List Char} {r : Char} (hr : isSpace r = true) (hq : Blank r → FreeIn .plain q) :
      Edit (r :: q) q

/-- The texts differ in their layout only. -/
def Relaid : List Char → List Char → Prop := Relation.EqvGen Edit

theorem written_append (h : Apart .plain false p q) :
    written (p ++ q) = written p ++ normalizeFrom (scan .plain false p).1 (spaced p) q :=
  (read_append h).1

theorem written_append_plain (hp : Outside p) (h : Apart .plain false p q) :
    written (p ++ q) = written p ++ normalizeFrom .plain (spaced p) q := by
  rw [written_append h, show (scan .plain false p).1 = .plain from hp]

theorem apart_of_opens (hp : Opens p) (hq : q.head? = some '-') : Apart .plain false p q := by
  intro c hc _
  rw [hq] at hc
  obtain rfl := Option.some.inj hc
  exact hp.2.trans hp.1.symm

theorem void_singleton (hr : isSpace r = true) : Void [r] :=
  fun _ hc => List.mem_singleton.mp hc ▸ hr

/-- Nothing is seen of white space that is written last. -/
theorem void_written (m : Mode) (b : Bool) (hr : isSpace r = true) :
    Void (normalizeFrom m b [r]) := by
  by_cases hblank : Blank r
  · obtain rfl | rfl | rfl | rfl := hblank <;> cases m <;> cases b <;>
      first | exact void_singleton rfl | exact fun _ hc => absurd hc List.not_mem_nil
  · cases m with
    | plain =>
      rw [normalizeFrom_char hblank (alone_of_isSpace hr)]
      exact void_singleton hr
    | lineComment =>
      rw [normalizeFrom_line fun hline => hblank (.inl hline)]
      exact fun _ hc => absurd hc List.not_mem_nil
    | dollarQuote =>
      rw [normalizeFrom_body fun hdollar => absurd hdollar (not_mark_of_isSpace hr).2]
      exact void_singleton hr

theorem freeIn_tail {m' : Mode} (tok : List Char) (h : FreeIn m (tok ++ s))
    (hscan : ∀ b p, p <+: s → scan m b (tok ++ p) = scan m' b p) : FreeIn m' s := by
  rintro x r y rfl hr hplain
  have hx : x <+: x ++ r :: y := List.prefix_append x _
  have hfree := h (tok ++ x) r y (List.append_assoc ..).symm hr
  rw [hscan _ x hx, hscan _ x hx] at hfree
  exact hfree hplain

theorem normalizeFrom_free (m : Mode) (q : List Char) (hq : FreeIn m q) :
    normalizeFrom m true q = normalizeFrom m false q := by
  generalize hb : false = b
  suffices h : normalizeFrom m true q = normalizeFrom m false q from hb ▸ h
  clear hb
  induction m, b, q using read_induction with
  | nil m b => cases m <;> rfl
  | line b r s hr ih =>
    rw [normalizeFrom_line hr, normalizeFrom_line hr]
    exact ih (freeIn_tail [r] hq fun _ _ _ => scan_line hr)
  | lineEnd b s _ => rfl
  | body b r s hr ih =>
    rw [normalizeFrom_body hr, normalizeFrom_body hr]
    exact congrArg (r :: ·) (ih (freeIn_tail [r] hq fun _ => scan_body_split hr))
  | close b s ih =>
    exact congrArg ('$' :: '$' :: ·) (ih (freeIn_tail ['$', '$'] hq fun _ _ _ => rfl))
  | comment b s ih => exact ih (freeIn_tail ['-', '-'] hq fun _ _ _ => rfl)
  | quote b s ih =>
    exact congrArg ('$' :: '$' :: ·) (ih (freeIn_tail ['$', '$'] hq fun _ _ _ => rfl))
  | blank b r s hr _ => exact nomatch hq [] r s rfl hr rfl
  | char b r s hr halone _ => rw [normalizeFrom_char hr halone, normalizeFrom_char hr halone]

theorem trimRunes_edit (h : Edit s t) : trimRunes (written s) = trimRunes (written t) := by
  cases h with
  | @blank p q r hp hr =>
    have hspace : Blank ' ' := .inr (.inr (.inr rfl))
    rw [written_append_plain hp (apart_of_blank hr),
      written_append_plain hp (apart_of_blank hspace), normalizeFrom_blank hr,
      normalizeFrom_blank hspace]
  | @drop p q r hp hspaced hr =>
    have hclosed : scan .plain false p = (.plain, true) := Prod.ext hp hspaced
    rw [written_append_plain hp (apart_of_blank hr),
      written_append_plain hp (apart_of_closed (.inr hclosed)), normalizeFrom_blank hr, hspaced,
      if_pos rfl]
  | @text p q r hp hr =>
    rw [written_append (apart_of_closed (.inl hp)), written_append (apart_of_closed (.inl hp)), hp,
      normalizeFrom_line hr]
  | @comment p q hp hspaced =>
    have hspace : Blank ' ' := .inr (.inr (.inr rfl))
    rw [written_append_plain hp.1 (apart_of_opens hp rfl),
      written_append_plain hp.1 (apart_of_blank hspace), hspaced]
    rfl
  | finish hp =>
    rw [written_append_plain hp.1 (apart_of_opens hp rfl)]
    exact congrArg trimRunes (List.append_nil _)
  | back hr =>
    rw [written_append (apart_of_isSpace hr), trimRunes_back (void_written _ _ hr)]
  | @front _ r hr hq =>
    by_cases hblank : Blank r
    · have hwritten : written (r :: t) = [' '] ++ written t := by
        rw [written, normalizeFrom_blank hblank, normalizeFrom_free .plain t (hq hblank)]
        rfl
      rw [hwritten, trimRunes_front (void_singleton rfl)]
    · have hwritten : written (r :: t) = [r] ++ written t :=
        normalizeFrom_char hblank (alone_of_isSpace hr)
      rw [hwritten, trimRunes_front (void_singleton hr)]

theorem trimRunes_relaid (h : Relaid s t) : trimRunes (written s) = trimRunes (written t) := by
  induction h with
  | rel s t h => exact trimRunes_edit h
  | refl s => rfl
  | symm s t _ ih => exact ih.symm
  | trans s t u _ _ ihs iht => exact ihs.trans iht

end Edits

section Forms

/-- The text that is written for itself: a space where one was written last is written for an empty
comment. -/
def layOut : Mode → Bool → List Char → List Char
  | _, _, [] => []
  | .lineComment, _, rest => rest
  | .dollarQuote, b, '$' :: '$' :: rest => '$' :: '$' :: layOut .plain b rest
  | .dollarQuote, b, r :: rest => r :: layOut .dollarQuote b rest
  | .plain, b, '$' :: '$' :: rest => '$' :: '$' :: layOut .dollarQuote b rest
  | .plain, b, r :: rest =>
    if b = true ∧ r = ' ' then '-' :: '-' :: '\n' :: layOut .plain true rest
    else r :: layOut .plain (decide (Blank r)) rest

theorem layOut_body (h : r = '$' → s.head? ≠ some '$') :
    layOut .dollarQuote b (r :: s) = r :: layOut .dollarQuote b s := by
  rw [layOut]
  exact fun rest hr => head_ne_iff.mp (h hr) rest

theorem layOut_char (hr : ¬ Blank r) (halone : Alone r s) :
    layOut .plain b (r :: s) = r :: layOut .plain false s := by
  have hspace : r ≠ ' ' := fun hspace => hr (.inr (.inr (.inr hspace)))
  rw [layOut, if_neg fun hb => hspace hb.2, decide_eq_false hr]
  rintro rest rfl
  exact head_ne_iff.mp (halone (.inr rfl)) rest

/-- What is read in a mode behind a text can be laid out anew. -/
def Movable : Mode → Bool → List Char → Prop
  | .plain, b, s => ∀ p, scan .plain false p = (.plain, b) → Apart .plain false p s →
      Relaid (p ++ s) (p ++ layOut .plain b (normalizeFrom .plain b s))
  | .lineComment, b, s => ∀ p, scan .plain false p = (.plain, b) → Opens p →
      Relaid (p ++ '-' :: '-' :: s) (p ++ layOut .plain b (normalizeFrom .lineComment b s))
  | .dollarQuote, b, s => ∀ p, scan .plain false p = (.dollarQuote, b) → Apart .plain false p s →
      Relaid (p ++ s) (p ++ layOut .dollarQuote b (normalizeFrom .dollarQuote b s))

theorem relaid_trans (h : Relaid s t) (h' : Relaid t x) : Relaid s x :=
  Relation.EqvGen.trans _ _ _ h h'

theorem relaid_of_edit (h : Edit s t) : Relaid s t := Relation.EqvGen.rel _ _ h

theorem scan_token {m' : Mode} (hp : scan .plain false p = (m, b)) (h : Apart .plain false p tok)
    (htok : scan m b tok = (m', b')) : scan .plain false (p ++ tok) = (m', b') := by
  rw [scan_append h, hp, htok]

/-- What can be laid out anew behind every text read in a mode can be laid out anew behind a token
that ends in that mode. -/
theorem relaid_token {m' : Mode} (tok : List Char)
    (hs : ∀ p, scan .plain false p = (m', b') → Apart .plain false p s → Relaid (p ++ s) (p ++ t))
    (hp : scan .plain false p = (m, b)) (h : Apart .plain false p (tok ++ s)) (htok : tok ≠ [])
    (hscan : scan m b tok = (m', b')) (hend : Apart m b tok s) :
    Relaid (p ++ (tok ++ s)) (p ++ (tok ++ t)) := by
  have hfront : Apart .plain false p tok := by
    have htoken := apart_token h htok []
    rwa [List.append_nil] at htoken
  have hapart : Apart .plain false (p ++ tok) s := by
    refine apart_append h htok ?_
    rw [hp]
    exact hend
  have hmoved := hs (p ++ tok) (scan_token hp hfront hscan) hapart
  rwa [List.append_assoc, List.append_assoc] at hmoved

theorem apart_body (hr : r = '$' → s.head? ≠ some '$') : Apart .dollarQuote b [r] s := by
  intro c hc hmark
  have hnext : r = '$' → [c].head? ≠ some '$' := by
    intro hdollar hhead
    exact hr hdollar (hc.trans hhead)
  have hlast : scan .dollarQuote b [r] = scan .dollarQuote b [] := scan_body fun _ => nofun
  have hscan : scan .dollarQuote b ([r] ++ [c]) = scan .dollarQuote b [c] := scan_body hnext
  rw [hscan, hlast]
  obtain rfl | rfl := hmark <;> rfl

theorem alone_nil : Alone r [] := fun _ hhead => nomatch hhead

theorem apart_char (hr : ¬ Blank r) (halone : Alone r s) : Apart .plain b [r] s := by
  intro c hc hmark
  have hnext : Alone r [c] := fun hr hhead => halone hr (hc.trans hhead)
  have hscan : scan .plain b ([r] ++ [c]) = scan .plain false [c] := scan_char hr hnext
  rw [hscan, scan_char hr alone_nil]
  obtain rfl | rfl := hmark <;> rfl

theorem apart_dollars (hm : m ≠ .lineComment) : Apart m b ['$', '$'] s := by
  intro c _ hmark
  cases m with
  | plain => obtain rfl | rfl := hmark <;> rfl
  | lineComment => exact absurd rfl hm
  | dollarQuote => obtain rfl | rfl := hmark <;> rfl

theorem movable (m : Mode) (b : Bool) (s : List Char) : Movable m b s := by
  induction m, b, s using read_induction with
  | nil m b =>
    cases m with
    | plain => exact fun p _ _ => .refl _
    | lineComment =>
      intro p hp hopens
      have hfinish := relaid_of_edit (.finish hopens)
      exact (List.append_nil p).symm ▸ hfinish
    | dollarQuote => exact fun p _ _ => .refl _
  | line b r s hr ih =>
    intro p hp hopens
    have hcomment : (scan .plain false (p ++ ['-', '-'])).1 = .lineComment :=
      congrArg Prod.fst (scan_token hp (apart_of_opens hopens rfl) rfl)
    have hedit := relaid_of_edit (.text (q := s) hcomment hr)
    rw [List.append_assoc, List.append_assoc] at hedit
    rw [normalizeFrom_line hr]
    exact relaid_trans hedit (ih p hp hopens)
  | lineEnd b s ih =>
    intro p hp hopens
    cases b with
    | false =>
      have hedit := relaid_of_edit (.comment (q := s) hopens (congrArg Prod.snd hp))
      exact relaid_trans hedit (relaid_token [' '] ih hp (apart_of_isSpace rfl)
        (List.cons_ne_nil _ _) rfl (apart_of_closed (.inr rfl)))
    | true =>
      exact relaid_token ['-', '-', '\n'] ih hp (apart_of_opens hopens rfl)
        (List.cons_ne_nil _ _) rfl (apart_of_closed (.inr rfl))
  | body b r s hr ih =>
    intro p hp hapart
    rw [normalizeFrom_body hr, layOut_body fun hdollar hhead => hr hdollar (head_body hhead)]
    exact relaid_token [r] ih hp hapart (List.cons_ne_nil _ _) (scan_body fun _ => nofun)
      (apart_body hr)
  | close b s ih =>
    intro p hp hapart
    exact relaid_token ['$', '$'] ih hp hapart (List.cons_ne_nil _ _) rfl (apart_dollars nofun)
  | comment b s ih =>
    intro p hp hapart
    have hplain : Outside p := congrArg Prod.fst hp
    exact ih p hp ⟨hplain, (hapart '-' rfl (.inl rfl)).trans hplain⟩
  | quote b s ih =>
    intro p hp hapart
    exact relaid_token ['$', '$'] ih hp hapart (List.cons_ne_nil _ _) rfl (apart_dollars nofun)
  | blank b r s hr ih =>
    intro p hp hapart
    have hplain : Outside p := congrArg Prod.fst hp
    rw [normalizeFrom_blank hr]
    cases b with
    | true =>
      exact relaid_trans (relaid_of_edit (.drop hplain (congrArg Prod.snd hp) hr))
        (ih p hp (apart_of_closed (.inr hp)))
    | false =>
      exact relaid_trans (relaid_of_edit (.blank hplain hr)) (relaid_token [' '] ih hp
        (apart_of_isSpace rfl) (List.cons_ne_nil _ _) rfl (apart_of_closed (.inr rfl)))
  | char b r s hr halone ih =>
    intro p hp hapart
    rw [normalizeFrom_char hr halone, layOut_char hr (alone_written halone)]
    exact relaid_token [r] ih hp hapart (List.cons_ne_nil _ _) (scan_char hr alone_nil)
      (apart_char hr halone)

theorem relaid_layOut (s : List Char) : Relaid s (layOut .plain false (written s)) :=
  movable .plain false s [] rfl apart_nil

theorem relaid_of_written (h : written s = written t) : Relaid s t := by
  have hs := relaid_layOut s
  rw [h] at hs
  exact relaid_trans hs (.symm _ _ (relaid_layOut t))

theorem head_layOut (h : m = .dollarQuote ∨ m = .plain ∧ b = false) :
    (layOut m b o).head? = o.head? := by
  obtain rfl | ⟨rfl, rfl⟩ := h
  · cases o with
    | nil => rfl
    | cons r o =>
      by_cases hr : r = '$' → o.head? ≠ some '$'
      · rw [layOut_body hr]
        rfl
      · obtain ⟨rfl, hhead⟩ := Classical.not_imp.mp hr
        obtain ⟨rest, rfl⟩ := List.head?_eq_some_iff.mp (not_not.mp hhead)
        rfl
  · cases o with
    | nil => rfl
    | cons r o =>
      by_cases hr : r = '$' → o.head? ≠ some '$'
      · rw [layOut, if_neg fun hb => Bool.false_ne_true hb.1]
        · rfl
        · exact fun rest hdollar => head_ne_iff.mp (hr hdollar) rest
      · obtain ⟨rfl, hhead⟩ := Classical.not_imp.mp hr
        obtain ⟨rest, rfl⟩ := List.head?_eq_some_iff.mp (not_not.mp hhead)
        rfl

/-- The form of a clean text is written as that text. -/
theorem normalizeFrom_layOut (m : Mode) (b : Bool) (o : List Char) (hm : m ≠ .lineComment)
    (h : Clean m b o) : normalizeFrom m b (layOut m b o) = o := by
  induction m, b, o using read_induction with
  | nil m b => cases m <;> rfl
  | line => exact absurd rfl hm
  | lineEnd => exact absurd rfl hm
  | body b r s hr ih =>
    have hscan := scan_body_split (b := b) hr
    have hhead : r = '$' → (layOut .dollarQuote b s).head? ≠ some '$' :=
      fun hdollar => (head_layOut (.inl rfl)).symm ▸ hr hdollar
    rw [layOut_body hr, normalizeFrom_body hhead, ih hm (h.tail hscan)]
  | close b s ih =>
    have hscan : ∀ p, p <+: s → scan .dollarQuote b (['$', '$'] ++ p) = scan .plain b p :=
      fun _ _ => rfl
    exact congrArg ('$' :: '$' :: ·) (ih nofun (h.tail hscan))
  | comment b s _ => exact absurd rfl ((h [] '-' ('-' :: s) rfl rfl).2 rfl)
  | quote b s ih =>
    have hscan : ∀ p, p <+: s → scan .plain b (['$', '$'] ++ p) = scan .dollarQuote b p :=
      fun _ _ => rfl
    exact congrArg ('$' :: '$' :: ·) (ih nofun (h.tail hscan))
  | blank b r s hr ih =>
    have hscan : ∀ p, p <+: s → scan .plain b ([r] ++ p) = scan .plain true p :=
      fun _ _ => scan_blank hr
    have hrest := ih nofun (h.tail hscan)
    obtain rfl := (h [] r s rfl rfl).1 hr
    cases b with
    | true => exact congrArg (' ' :: ·) hrest
    | false => exact congrArg (' ' :: ·) hrest
  | char b r s hr halone ih =>
    have hscan := scan_char_split (b := b) hr halone
    have hnext : Alone r (layOut .plain false s) :=
      fun hmark => (head_layOut (.inr ⟨rfl, rfl⟩)).symm ▸ halone hmark
    rw [layOut_char hr halone, normalizeFrom_char hr hnext, ih nofun (h.tail hscan)]

/-- White space only stands where no space was written last. -/
def Single (m : Mode) (b : Bool) (t : List Char) : Prop :=
  ∀ x r y, t = x ++ r :: y → Blank r → (scan m b x).1 = .plain → (scan m b x).2 = false

theorem Single.front {m' : Mode} (tok : List Char) (h : Single m' b' s)
    (hscan : ∀ p, p <+: s → scan m b (tok ++ p) = scan m' b' p) (htok : Single m b tok) :
    Single m b (tok ++ s) := by
  intro x r y hx hr
  obtain ⟨z, rfl, rfl⟩ | ⟨z, rfl, hz⟩ := List.append_eq_append_iff.mp hx
  · rw [hscan z (List.prefix_append _ _)]
    exact h z r y rfl hr
  · cases z with
    | nil =>
      have hnil := hscan [] List.nil_prefix
      rw [List.append_nil, List.append_nil] at hnil
      rw [hnil]
      exact h [] r y hz.symm hr
    | cons d z =>
      obtain ⟨rfl, -⟩ := List.cons.inj hz
      exact htok x r z rfl hr

theorem single_of_not_blank (h : ∀ c ∈ tok, ¬ Blank c) : Single m b tok := by
  rintro x r y rfl hr
  exact absurd hr (h r (List.mem_append_right x List.mem_cons_self))

theorem single_dollars : Single m b ['$', '$'] := by
  have hdollar : ¬ Blank '$' := by decide
  refine single_of_not_blank (List.forall_mem_cons.mpr ⟨hdollar, fun c hc => ?_⟩)
  exact List.mem_singleton.mp hc ▸ hdollar

theorem single_comment : Single .plain true ['-', '-', '\n'] := by
  intro x r y hx hr hplain
  obtain _ | ⟨_, _ | ⟨_, _ | ⟨_, x⟩⟩⟩ := x
  · obtain ⟨hdash, -⟩ := List.cons.inj hx
    exact absurd (hdash ▸ hr) (by decide)
  · obtain ⟨hdash, -⟩ := List.cons.inj (List.cons.inj hx).2
    exact absurd (hdash ▸ hr) (by decide)
  · obtain ⟨hfirst, hrest⟩ := List.cons.inj hx
    obtain ⟨hsecond, -⟩ := List.cons.inj hrest
    rw [← hfirst, ← hsecond] at hplain
    cases hplain
  · simp at hx

theorem single_layOut (m : Mode) (b : Bool) (o : List Char) (hm : m ≠ .lineComment)
    (h : Clean m b o) : Single m b (layOut m b o) := by
  induction m, b, o using read_induction with
  | nil m b =>
    intro x r y hx
    cases m <;> exact absurd hx (by simp [layOut])
  | line => exact absurd rfl hm
  | lineEnd => exact absurd rfl hm
  | body b r s hr ih =>
    have hhead : r = '$' → (layOut .dollarQuote b s).head? ≠ some '$' :=
      fun hdollar => (head_layOut (.inl rfl)).symm ▸ hr hdollar
    rw [layOut_body hr]
    refine Single.front [r] (ih hm (h.tail (scan_body_split hr))) (scan_body_split hhead) ?_
    intro x c y hx _ hplain
    obtain ⟨rfl, -⟩ := singleton_eq hx
    cases hplain
  | close b s ih =>
    have hscan : ∀ p, p <+: s → scan .dollarQuote b (['$', '$'] ++ p) = scan .plain b p :=
      fun _ _ => rfl
    exact Single.front ['$', '$'] (ih nofun (h.tail hscan)) (fun _ _ => rfl) single_dollars
  | comment b s _ => exact absurd rfl ((h [] '-' ('-' :: s) rfl rfl).2 rfl)
  | quote b s ih =>
    have hscan : ∀ p, p <+: s → scan .plain b (['$', '$'] ++ p) = scan .dollarQuote b p :=
      fun _ _ => rfl
    exact Single.front ['$', '$'] (ih nofun (h.tail hscan)) (fun _ _ => rfl) single_dollars
  | blank b r s hr ih =>
    have hscan : ∀ p, p <+: s → scan .plain b ([r] ++ p) = scan .plain true p :=
      fun _ _ => scan_blank hr
    have hrest := ih nofun (h.tail hscan)
    obtain rfl := (h [] r s rfl rfl).1 hr
    cases b with
    | true => exact Single.front ['-', '-', '\n'] hrest (fun _ _ => rfl) single_comment
    | false =>
      refine Single.front [' '] hrest (fun _ _ => rfl) fun x c y hx _ _ => ?_
      obtain ⟨rfl, -⟩ := singleton_eq hx
      rfl
  | char b r s hr halone ih =>
    have hnext : Alone r (layOut .plain false s) :=
      fun hmark => (head_layOut (.inr ⟨rfl, rfl⟩)).symm ▸ halone hmark
    rw [layOut_char hr halone]
    refine Single.front [r] (ih nofun (h.tail (scan_char_split hr halone)))
      (scan_char_split hr hnext) ?_
    exact single_of_not_blank fun c hc => List.mem_singleton.mp hc ▸ hr

/-- The form of a clean text behind a space is read as it is without the space. -/
theorem freeIn_layOut (h : Clean .plain true o) : FreeIn .plain (layOut .plain true o) := by
  intro x r y hx hr hplain
  have hflag := single_layOut .plain true o nofun h x r y hx hr hplain
  obtain ⟨hmode, hmono⟩ := scan_mono .plain true x false fun _ => rfl
  refine Prod.ext hmode.symm ?_
  have hfalse : (scan .plain false x).2 = false :=
    Bool.eq_false_iff.mpr fun htrue => Bool.false_ne_true (hflag.symm.trans (hmono htrue))
  exact hflag.trans hfalse.symm

end Forms

section Trimming

theorem clean_written (s : List Char) : Clean .plain false (written s) :=
  clean_infix (fun _ hc => absurd hc List.not_mem_nil) (List.append_nil _).symm

/-- A text can be laid out without the white space in front of what is written. -/
theorem exists_front (h : written s = r :: o) (hr : isSpace r = true) :
    ∃ s', Relaid s s' ∧ written s' = o := by
  have hclean := clean_written s
  have hlaid := relaid_layOut s
  rw [h] at hclean hlaid
  by_cases hblank : Blank r
  · obtain rfl := (hclean [] r o rfl rfl).1 hblank
    have hspace : Clean .plain false ([' '] ++ o) := hclean
    have htail : Clean .plain true o := hspace.tail fun _ _ => rfl
    refine ⟨layOut .plain true o, relaid_trans hlaid (relaid_of_edit ?_), ?_⟩
    · exact .front hr fun _ => freeIn_layOut htail
    · rw [written, ← normalizeFrom_free .plain _ (freeIn_layOut htail)]
      exact normalizeFrom_layOut .plain true o (by simp) htail
  · have hchar : Clean .plain false ([r] ++ o) := hclean
    have htail : Clean .plain false o :=
      hchar.tail fun _ _ => scan_char hblank (alone_of_isSpace hr)
    rw [layOut_char hblank (alone_of_isSpace hr)] at hlaid
    refine ⟨layOut .plain false o, relaid_trans hlaid (relaid_of_edit ?_), ?_⟩
    · exact .front hr fun h => absurd h hblank
    · exact normalizeFrom_layOut .plain false o (by simp) htail

/-- And without the white space at the end. -/
theorem exists_back (h : written s = o ++ [r]) (hr : isSpace r = true) :
    ∃ s', Relaid s s' ∧ written s' = o := by
  obtain ⟨p, q, rfl, hapart, hp, hwrites⟩ := origin_of_written (not_mark_of_isSpace hr).2 h
  refine ⟨p, ?_, hp⟩
  have hsingle : normalizeFrom (scan .plain false p).1 (scan .plain false p).2 [r] = [r] →
      Relaid (p ++ q) p := by
    intro hself
    have hwritten : written (p ++ [r]) = o ++ [r] := by
      rw [written_append (apart_of_isSpace hr), spaced, hself]
      exact congrArg (· ++ [r]) hp
    exact relaid_trans (relaid_of_written (h.trans hwritten.symm)) (relaid_of_edit (.back hr))
  generalize hm : (scan .plain false p).1 = m at hwrites hsingle
  generalize hb : (scan .plain false p).2 = b at hwrites hsingle
  generalize hy : ([] : List Char) = y at hwrites
  cases hwrites with
  | blank _ => exact hsingle rfl
  | char hblank _ => exact hsingle (normalizeFrom_char hblank alone_nil)
  | body _ => exact hsingle (normalizeFrom_body fun _ => by simp)
  | comment _ =>
    have hopens : Opens p := ⟨hm, (hapart '-' rfl (.inl rfl)).trans hm⟩
    have hwritten : written (p ++ ['-', '-', '\n']) = o ++ [' '] := by
      rw [written_append_plain hm (apart_of_opens hopens rfl)]
      exact congrArg (· ++ [' ']) hp
    have hend : Relaid (p ++ ['-', '-', '\n']) (p ++ ['-', '-']) := by
      have hback := relaid_of_edit (.back (p := p ++ ['-', '-']) (r := '\n') rfl)
      rwa [List.append_assoc] at hback
    exact relaid_trans (relaid_of_written (h.trans hwritten.symm))
      (relaid_trans hend (relaid_of_edit (.finish hopens)))

theorem exists_fronts (hx : Void x) (h : written s = x ++ o) :
    ∃ s', Relaid s s' ∧ written s' = o := by
  induction x generalizing s with
  | nil => exact ⟨s, .refl _, h⟩
  | cons r x ih =>
    obtain ⟨hr, hx⟩ := List.forall_mem_cons.mp hx
    obtain ⟨s', hs', hwritten⟩ := exists_front h hr
    obtain ⟨s'', hs'', hout⟩ := ih hx hwritten
    exact ⟨s'', relaid_trans hs' hs'', hout⟩

theorem exists_backs (hy : Void y) (h : written s = o ++ y) :
    ∃ s', Relaid s s' ∧ written s' = o := by
  induction y using List.reverseRecOn generalizing s with
  | nil => exact ⟨s, .refl _, h.trans (List.append_nil o)⟩
  | append_singleton y r ih =>
    obtain ⟨hy, hr⟩ := List.forall_mem_append.mp hy
    obtain ⟨s', hs', hwritten⟩ :=
      exists_back (h.trans (List.append_assoc ..).symm) (hr r List.mem_cons_self)
    obtain ⟨s'', hs'', hout⟩ := ih hy hwritten
    exact ⟨s'', relaid_trans hs' hs'', hout⟩

/-- Every text can be laid out so that its normal form is just what is written. -/
theorem exists_trimmed (s : List Char) :
    ∃ s', Relaid s s' ∧ written s' = trimRunes (written s) := by
  obtain ⟨x, y, hx, hy, hwritten⟩ := trimRunes_spec (written s)
  obtain ⟨s', hs', hback⟩ := exists_backs hy hwritten
  obtain ⟨s'', hs'', hfront⟩ := exists_fronts hx hback
  exact ⟨s'', relaid_trans hs' hs'', hfront⟩

/-- Two texts have one normal form if they differ in their layout only, and only then. -/
theorem normalizeSQL_eq_iff :
    normalizeSQL (String.ofList s) = normalizeSQL (String.ofList t) ↔ Relaid s t := by
  rw [normalizeSQL_inj]
  refine ⟨fun h => ?_, trimRunes_relaid⟩
  obtain ⟨s', hs', hs⟩ := exists_trimmed s
  obtain ⟨t', ht', ht⟩ := exists_trimmed t
  have hforms : Relaid s' t' := relaid_of_written (hs.trans (h.trans ht.symm))
  exact relaid_trans hs' (relaid_trans hforms (.symm _ _ ht'))

end Trimming

section Bodies

/-- Two dollar signs in a row only come behind the text. -/
def Bare (x : List Char) : Prop := ¬ ['$', '$'] <:+: x ++ ['$']

theorem normalizeFrom_bare (hx : Bare x) : normalizeFrom .dollarQuote b (x ++ '$' :: '$' :: q) =
    x ++ '$' :: '$' :: normalizeFrom .plain b q := by
  induction x with
  | nil => rfl
  | cons r x ih =>
    have hrest : Bare x := fun h => hx (List.infix_cons h)
    have hnext : r = '$' → (x ++ '$' :: '$' :: q).head? ≠ some '$' := by
      rintro rfl hhead
      refine hx ?_
      cases x with
      | nil => exact List.infix_refl _
      | cons d x =>
        obtain rfl := Option.some.inj hhead
        exact ⟨[], x ++ ['$'], rfl⟩
    rw [List.cons_append, normalizeFrom_body hnext, ih hrest]
    rfl

/-- A statement with a body between plain dollar quotes. -/
def quoted (p x q : List Char) : List Char := p ++ '$' :: '$' :: (x ++ '$' :: '$' :: q)

theorem written_quoted (hp : Outside p) (hdollar : Outside (p ++ ['$'])) (hx : Bare x) :
    written (quoted p x q) =
      written p ++ ['$', '$'] ++ x ++ '$' :: '$' :: normalizeFrom .plain (spaced p) q := by
  have hapart : Apart .plain false p ('$' :: '$' :: (x ++ '$' :: '$' :: q)) := by
    intro c hc _
    obtain rfl := Option.some.inj hc
    exact hdollar.trans hp.symm
  have hread : normalizeFrom .plain (spaced p) ('$' :: '$' :: (x ++ '$' :: '$' :: q)) =
      '$' :: '$' :: normalizeFrom .dollarQuote (spaced p) (x ++ '$' :: '$' :: q) := rfl
  rw [quoted, written_append_plain hp hapart, hread, normalizeFrom_bare hx]
  simp only [List.append_assoc, List.cons_append, List.nil_append]

/-- A body between plain dollar quotes is kept as it is. -/
theorem quoted_inj (hp : Outside p) (hdollar : Outside (p ++ ['$'])) (hx : Bare x) (hy : Bare y)
    (h : normalizeSQL (String.ofList (quoted p x q)) =
      normalizeSQL (String.ofList (quoted p y q))) : x = y := by
  have hfront : ¬ Void (written p ++ ['$', '$']) := fun hvoid =>
    absurd (hvoid '$' (List.mem_append_right _ List.mem_cons_self)) (by decide)
  have hback : ¬ Void ('$' :: '$' :: normalizeFrom .plain (spaced p) q) := fun hvoid =>
    absurd (hvoid '$' List.mem_cons_self) (by decide)
  rw [normalizeSQL_inj, written_quoted hp hdollar hx, written_quoted hp hdollar hy,
    trimRunes_between hfront hback, trimRunes_between hfront hback] at h
  exact List.append_cancel_left (List.append_cancel_right h)

end Bodies

/-- Statements whose quotations differ have different normal forms. -/
def Shown (stmt stmt' : String) : Prop :=
  quotations stmt ≠ quotations stmt' → normalizeSQL stmt ≠ normalizeSQL stmt'

/-- A change of the quotations is shown unless it is one of the layout, and then it is hidden; one
of a body between plain dollar quotes is always shown. -/
theorem drift_shown_iff (stmt stmt' : String) :
    (Shown stmt stmt' ↔
      (quotations stmt ≠ quotations stmt' → ¬ Relaid stmt.toList stmt'.toList)) ∧
    ∀ p x y q, Outside p → Outside (p ++ ['$']) → Bare x → Bare y → x ≠ y →
      Shown (String.ofList (quoted p x q)) (String.ofList (quoted p y q)) := by
  have hforms := normalizeSQL_eq_iff (s := stmt.toList) (t := stmt'.toList)
  rw [String.ofList_toList, String.ofList_toList] at hforms
  refine ⟨imp_congr_right fun _ => not_congr hforms, ?_⟩
  intro p x y q hp hdollar hx hy hne _ h
  exact hne (quoted_inj hp hdollar hx hy h)

/-- White space and dashes are taken for layout in a literal, in a quoted identifier and in a body
with a tag. -/
theorem hidden_edits : ¬ Shown "SELECT 'a  b'" "SELECT 'a b'" ∧
    ¬ Shown "SELECT '-- a'" "SELECT '-- b'" ∧ ¬ Shown "SELECT \"a  b\"" "SELECT \"a b\"" ∧
    ¬ Shown "DO $x$a  b$x$" "DO $x$a b$x$" := by
  have hhidden : ∀ s t : String, quotations s ≠ quotations t →
      trimRunes (written s.toList) = trimRunes (written t.toList) → ¬ Shown s t := by
    intro s t hquotations hforms hshown
    refine hshown hquotations ?_
    rw [← String.ofList_toList (s := s), ← String.ofList_toList (s := t), normalizeSQL_inj]
    exact hforms
  refine ⟨?_, ?_, ?_, ?_⟩
  · exact hhidden _ _ (by decide) (by decide)
  · exact hhidden _ _ (by decide) (by decide)
  · exact hhidden _ _ (by decide) (by decide)
  · exact hhidden _ _ (by decide) (by decide)

end RivicQ.Properties.Drift
