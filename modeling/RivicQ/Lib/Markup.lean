import RivicQ.Lib.Framing
import RivicQ.Lib.Projections

namespace RivicQ.Lib.Markup

open RivicQ.Lib.Framing RivicQ.Lib.Readers

/-- What stands before the first occurrence of a text, and what stands behind it. -/
def cutText (sep : List Char) : List Char → Option (List Char × List Char)
  | [] => if sep = [] then some ([], []) else none
  | c :: s =>
    if sep <+: c :: s then some ([], (c :: s).drop sep.length)
    else (cutText sep s).map fun parts => (c :: parts.1, parts.2)

theorem length_cutText_lt {sep s before after : List Char} (hsep : sep ≠ [])
    (h : cutText sep s = some (before, after)) : after.length < s.length := by
  induction s generalizing before after with
  | nil =>
    rw [cutText, if_neg hsep] at h
    cases h
  | cons c s ih =>
    rw [cutText] at h
    split_ifs at h with hprefix
    · obtain ⟨-, rfl⟩ := Prod.mk.inj (Option.some.inj h)
      have hpos : 0 < sep.length := List.length_pos_iff.mpr hsep
      rw [List.length_drop, List.length_cons]
      omega
    · obtain ⟨⟨before', after'⟩, hcut, hparts⟩ := Option.map_eq_some_iff.mp h
      obtain ⟨-, rfl⟩ := Prod.mk.inj hparts
      exact Nat.lt_succ_of_lt (ih hcut)

def opening (tag : List Char) : List Char := '<' :: (tag ++ ['>'])

def closing (tag : List Char) : List Char := opening ('/' :: tag)

/-- The texts between an opening tag and the next closing one. -/
def between (tag content : List Char) : List (List Char) :=
  match _ : cutText (opening tag) content with
  | none => []
  | some (_, rest) =>
    match _ : cutText (closing tag) rest with
    | none => []
    | some (text, remaining) => text :: between tag remaining
termination_by content.length
decreasing_by
  have hrest := length_cutText_lt (List.cons_ne_nil _ _) ‹cutText (opening tag) content = _›
  have hremaining := length_cutText_lt (List.cons_ne_nil _ _) ‹cutText (closing tag) rest = _›
  omega

/-- What is collected from within a tag on, with what has been collected. -/
def collect (tag acc s : List Char) : List (List Char) :=
  ((cutText (closing tag) s).map fun parts => (acc ++ parts.1) :: between tag parts.2).getD []

theorem between_eq (tag s : List Char) : between tag s =
    ((cutText (opening tag) s).map fun parts => collect tag [] parts.2).getD [] := by
  rw [between]
  split
  next hopen => rw [hopen]; rfl
  next before rest hopen =>
    rw [hopen, Option.map_some, Option.getD_some, collect]
    split
    next hclose => rw [hclose]; rfl
    next text remaining hclose => rw [hclose]; rfl

section Leads

variable {tag acc lead s : List Char}

/-- A tag is not found in what has no bracket. -/
theorem cutText_lead (hlead : '<' ∉ lead) : cutText (opening tag) (lead ++ s) =
    (cutText (opening tag) s).map fun parts => (lead ++ parts.1, parts.2) := by
  induction lead with
  | nil =>
    rw [List.nil_append]
    cases cutText (opening tag) s <;> rfl
  | cons c lead ih =>
    have hne : '<' ≠ c := fun h => hlead (h ▸ List.mem_cons_self)
    have hprefix : ¬ opening tag <+: c :: (lead ++ s) := fun h => hne (List.cons_prefix_cons.mp h).1
    rw [List.cons_append, cutText, if_neg hprefix, ih fun h => hlead (List.mem_cons_of_mem c h)]
    cases cutText (opening tag) s <;> rfl

theorem between_lead (hlead : '<' ∉ lead) : between tag (lead ++ s) = between tag s := by
  rw [between_eq, between_eq, cutText_lead hlead, Option.map_map]
  rfl

theorem collect_lead (hlead : '<' ∉ lead) :
    collect tag acc (lead ++ s) = collect tag (acc ++ lead) s := by
  rw [collect, collect, closing, cutText_lead hlead, Option.map_map]
  congr 2
  funext parts
  rw [Function.comp_apply, List.append_assoc]

theorem between_nil : between tag [] = [] := by
  rw [between_eq]
  rfl

theorem collect_nil : collect tag acc [] = [] := rfl

end Leads

/-- What may stand between the brackets of a tag. -/
abbrev Head := { head : List Char // '<' ∉ head ∧ '>' ∉ head }

/-- What may stand between two tags. -/
abbrev Text := { text : List Char // '<' ∉ text }

/-- A tag with the text behind it. -/
structure Token where
  head : Head
  text : Text

def Token.render (t : Token) : List Char := '<' :: (t.head.1 ++ '>' :: t.text.1)

section Tokens

variable {t : Token} {tag acc s : List Char}

/-- A tag is found at a token if it is the tag of the token. -/
theorem opening_prefix_iff (htag : '>' ∉ tag) : opening tag <+: t.render ++ s ↔ t.head.1 = tag := by
  rw [opening, Token.render, List.cons_append, List.cons_prefix_cons, and_iff_right rfl,
    List.append_assoc]
  constructor
  · rintro ⟨w, hw⟩
    rw [List.append_assoc] at hw
    exact (append_cons_inj htag t.head.2.2 hw).1.symm
  · rintro rfl
    exact ⟨t.text.1 ++ s, by simp⟩

theorem cutText_found (htag : '>' ∉ tag) (h : t.head.1 = tag) :
    cutText (opening tag) (t.render ++ s) = some ([], t.text.1 ++ s) := by
  have hprefix := (opening_prefix_iff (s := s) htag).mpr h
  have hdrop : (t.render ++ s).drop (opening tag).length = t.text.1 ++ s := by
    subst h
    simp [Token.render, opening]
  rw [← hdrop]
  rw [Token.render, List.cons_append] at hprefix ⊢
  rw [cutText, if_pos hprefix]

/-- Away from the tag that is sought, the search goes on behind the token. -/
theorem cutText_skip (htag : '>' ∉ tag) (h : t.head.1 ≠ tag) :
    cutText (opening tag) (t.render ++ s) =
      (cutText (opening tag) s).map fun parts => (t.render ++ parts.1, parts.2) := by
  have hbody : '<' ∉ t.head ++ '>' :: t.text := by
    have hbracket : '<' ≠ '>' := by decide
    simp [t.head.2.1, t.text.2, hbracket]
  have hprefix := mt (opening_prefix_iff (s := s) htag).mp h
  rw [Token.render, List.cons_append] at hprefix ⊢
  rw [cutText, if_neg hprefix, cutText_lead hbody]
  cases cutText (opening tag) s <;> rfl

theorem between_open (htag : '>' ∉ tag) (h : t.head.1 = tag) :
    between tag (t.render ++ s) = collect tag t.text.1 s := by
  rw [between_eq, cutText_found htag h, Option.map_some, Option.getD_some,
    collect_lead t.text.2, List.nil_append]

theorem between_skip (htag : '>' ∉ tag) (h : t.head.1 ≠ tag) :
    between tag (t.render ++ s) = between tag s := by
  rw [between_eq, between_eq, cutText_skip htag h, Option.map_map]
  rfl

theorem collect_close (htag : '>' ∉ '/' :: tag) (h : t.head.1 = '/' :: tag) :
    collect tag acc (t.render ++ s) = acc :: between tag s := by
  rw [collect, closing, cutText_found htag h, Option.map_some, Option.getD_some,
    between_lead t.text.2, List.append_nil]

theorem collect_skip (htag : '>' ∉ '/' :: tag) (h : t.head.1 ≠ '/' :: tag) :
    collect tag acc (t.render ++ s) = collect tag (acc ++ t.render) s := by
  rw [collect, collect, closing, cutText_skip htag h, Option.map_map]
  congr 2
  funext parts
  rw [Function.comp_apply, List.append_assoc]

/-- A reader of tokens that looks for a tag; within it, it collects the text. -/
def tokenStep (tag : List Char) : Option (List Char) → Token → List (List Char) × Option (List Char)
  | none, t => ([], if t.head.1 = tag then some t.text.1 else none)
  | some text, t => if t.head.1 = '/' :: tag then ([text], none) else ([], some (text ++ t.render))

/-- The search of a text and the reading of its tokens find the same texts. -/
theorem search_eq_outputs (htag : '>' ∉ tag) (ts : List Token) :
    between tag (ts.flatMap Token.render) = outputs (tokenStep tag) none ts ∧
      ∀ acc, collect tag acc (ts.flatMap Token.render) = outputs (tokenStep tag) (some acc) ts := by
  have hslash : '>' ∉ '/' :: tag := by simp [htag]
  induction ts with
  | nil => exact ⟨between_nil, fun acc => collect_nil⟩
  | cons t ts ih =>
    rw [List.flatMap_cons]
    refine ⟨?_, fun acc => ?_⟩
    · by_cases h : t.head.1 = tag
      · rw [between_open htag h, ih.2, outputs, tokenStep, if_pos h, List.nil_append]
      · rw [between_skip htag h, ih.1, outputs, tokenStep, if_neg h, List.nil_append]
    · by_cases h : t.head.1 = '/' :: tag
      · rw [collect_close hslash h, ih.1, outputs, tokenStep, if_pos h, List.singleton_append]
      · rw [collect_skip hslash h, ih.2, outputs, tokenStep, if_neg h, List.nil_append]

theorem between_tokens (htag : '>' ∉ tag) {lead : List Char} (hlead : '<' ∉ lead)
    (ts : List Token) :
    between tag (lead ++ ts.flatMap Token.render) = outputs (tokenStep tag) none ts :=
  (between_lead hlead).trans (search_eq_outputs htag ts).1

end Tokens

/-- A tag by itself, or an element that holds nothing but a text. -/
inductive Item
  | mark (head : Head)
  | leaf (name : Head) (text : Text)

def Head.close (name : Head) : Head :=
  ⟨'/' :: name.1, by simp [name.2.1], by simp [name.2.2]⟩

namespace Item

def tokens (gap : Text) : Item → List Token
  | mark head => [⟨head, gap⟩]
  | leaf name text => [⟨name, text⟩, ⟨name.close, gap⟩]

/-- The text of the element of that name. -/
def textOf (tag : List Char) : Item → Option (List Char)
  | mark _ => none
  | leaf name text => if name.1 = tag then some text.1 else none

/-- An item that is not taken for the tag of an element. -/
def Apart (tag : List Char) : Item → Prop
  | mark head => head.1 ≠ tag
  | leaf _ _ => True

variable {tag : List Char} {gap : Text}

/-- An item is read to its end. -/
theorem outputs_tokens (htag : tag.head? ≠ some '/') {i : Item} (hi : i.Apart tag) :
    outputs (tokenStep tag) none (i.tokens gap) = (i.textOf tag).toList ∧
      stateAfter (tokenStep tag) none (i.tokens gap) = none := by
  cases i with
  | mark head =>
    have hhead : head.1 ≠ tag := hi
    simp [tokens, textOf, outputs, stateAfter, tokenStep, hhead]
  | leaf name text =>
    by_cases h : name.1 = tag
    · simp [tokens, textOf, outputs, stateAfter, tokenStep, Head.close, h]
    · have hclose : '/' :: name.1 ≠ tag := fun h => htag (h ▸ rfl)
      simp [tokens, textOf, outputs, stateAfter, tokenStep, Head.close, h, hclose]

end Item

/-- A document with what stands between its items. -/
def tokensOf (gaps : Nat → Text) : List Item → List Token
  | [] => []
  | i :: is => i.tokens (gaps 0) ++ tokensOf (fun n => gaps (n + 1)) is

theorem outputs_tokensOf {tag : List Char} (htag : tag.head? ≠ some '/') (gaps : Nat → Text)
    {is : List Item} (his : ∀ i ∈ is, i.Apart tag) :
    outputs (tokenStep tag) none (tokensOf gaps is) = is.filterMap (Item.textOf tag) := by
  induction is generalizing gaps with
  | nil => rfl
  | cons i is ih =>
    obtain ⟨hout, hstate⟩ := @Item.outputs_tokens tag (gaps 0) htag i (his i List.mem_cons_self)
    rw [tokensOf, outputs_append, hout, hstate, ih _ fun j hj => his j (List.mem_cons_of_mem i hj)]
    rw [List.filterMap_cons]
    cases i.textOf tag <;> rfl

def render (lead : Text) (gaps : Nat → Text) (is : List Item) : List Char :=
  lead.1 ++ (tokensOf gaps is).flatMap Token.render

/-- A search for the elements of a name finds their texts, however the document is laid out. -/
theorem between_render {tag : List Char} (htag : '>' ∉ tag) (hslash : tag.head? ≠ some '/')
    (lead : Text) (gaps : Nat → Text) {is : List Item} (his : ∀ i ∈ is, i.Apart tag) :
    between tag (render lead gaps is) = is.filterMap (Item.textOf tag) :=
  (between_tokens htag lead.2 _).trans (outputs_tokensOf hslash gaps his)

end RivicQ.Lib.Markup
