import RivicQ.Lib.GoStrings
import Mathlib.Data.List.Forall2

namespace RivicQ.Lib.Paths

/-- The parts of a path between its slashes. -/
def segments (path : String) : List (List Char) := path.toList.splitOn '/'

/-- A parameter of a route pattern, such as `:id`. -/
def IsParam (segment : List Char) : Prop := segment.head? = some ':'

instance (segment : List Char) : Decidable (IsParam segment) :=
  inferInstanceAs (Decidable (segment.head? = some ':'))

def FillsSegment (p s : List Char) : Prop := if IsParam p then s ≠ [] else s = p

instance (p s : List Char) : Decidable (FillsSegment p s) :=
  inferInstanceAs (Decidable (if IsParam p then s ≠ [] else s = p))

/-- The path is the pattern with a non-empty segment in place of each parameter. -/
def Fills (pattern path : String) : Prop :=
  List.Forall₂ FillsSegment (segments pattern) (segments path)

instance (pattern path : String) : Decidable (Fills pattern path) :=
  inferInstanceAs (Decidable (List.Forall₂ FillsSegment (segments pattern) (segments path)))

/-- A pattern without parameters. -/
def Literal (pattern : String) : Prop := ∀ p ∈ segments pattern, ¬ IsParam p

instance (pattern : String) : Decidable (Literal pattern) :=
  inferInstanceAs (Decidable (∀ p ∈ segments pattern, ¬ IsParam p))

theorem intercalate_segments (path : String) : ['/'].intercalate (segments path) = path.toList :=
  List.intercalate_splitOn '/'

theorem not_mem_splitOn {sep : Char} {cs s : List Char} (hs : s ∈ cs.splitOn sep) : sep ∉ s := by
  induction cs generalizing s with
  | nil =>
    rw [List.splitOn_nil, List.mem_singleton] at hs
    rw [hs]
    exact List.not_mem_nil
  | cons c cs ih =>
    rw [List.splitOn_cons_eq_if_modifyHead] at hs
    split at hs
    · obtain rfl | hs := List.mem_cons.mp hs
      · exact List.not_mem_nil
      · exact ih hs
    · rename_i hc
      obtain ⟨s', rest, he⟩ := List.exists_cons_of_ne_nil (List.splitOn_ne_nil sep cs)
      rw [he, List.modifyHead_cons] at hs
      obtain rfl | hs := List.mem_cons.mp hs
      · intro hmem
        obtain h | h := List.mem_cons.mp hmem
        · exact hc (beq_iff_eq.mpr h.symm)
        · exact ih (he ▸ List.mem_cons_self) h
      · exact ih (he ▸ List.mem_cons_of_mem s' hs)

theorem not_mem_segment {path : String} {s : List Char} (hs : s ∈ segments path) : '/' ∉ s :=
  not_mem_splitOn hs

section Bounded

variable {sep : Char} {a s : List Char}

theorem splitOn_inj (h : a.splitOn sep = s.splitOn sep) : a = s :=
  calc
    a = [sep].intercalate (a.splitOn sep) := (List.intercalate_splitOn sep).symm
    _ = [sep].intercalate (s.splitOn sep) := by rw [h]
    _ = s := List.intercalate_splitOn sep

theorem splitOn_bounded : (sep :: (s ++ [sep])).splitOn sep = [] :: (s.splitOn sep ++ [[]]) := by
  have hfront := List.splitOn_append_cons_self (a := sep) [] (s ++ [sep])
  rw [List.nil_append, List.splitOn_nil, List.singleton_append] at hfront
  rw [hfront, List.splitOn_append_cons_self, List.splitOn_nil]

/-- Consecutive parts of a text stand in it between separators. -/
theorem infix_splitOn_iff : a.splitOn sep <:+: s.splitOn sep ↔
    sep :: (a ++ [sep]) <:+: sep :: (s ++ [sep]) := by
  constructor
  · rintro ⟨x, y, he⟩
    have hparts : ∀ l ∈ x ++ a.splitOn sep ++ y, sep ∉ l := fun l hl => not_mem_splitOn (he ▸ hl)
    simp only [List.mem_append] at hparts
    have hfront : ([sep].intercalate ([] :: x)).splitOn sep = [] :: x :=
      List.splitOn_intercalate sep
        (List.forall_mem_cons.mpr ⟨List.not_mem_nil, fun l hl => hparts l (.inl (.inl hl))⟩)
        (by simp)
    have hback : ([sep].intercalate (y ++ [[]])).splitOn sep = y ++ [[]] :=
      List.splitOn_intercalate sep
        (List.forall_mem_append.mpr ⟨fun l hl => hparts l (.inr hl), by simp⟩) (by simp)
    have htext : [sep].intercalate ([] :: x) ++ sep :: (a ++ sep :: [sep].intercalate (y ++ [[]])) =
        sep :: (s ++ [sep]) := by
      refine splitOn_inj (?_ : List.splitOn sep _ = List.splitOn sep _)
      rw [splitOn_bounded, List.splitOn_append_cons_self, List.splitOn_append_cons_self, hfront,
        hback, ← he]
      simp
    refine ⟨[sep].intercalate ([] :: x), [sep].intercalate (y ++ [[]]), ?_⟩
    rw [← htext]
    simp
  · rintro ⟨p, q, he⟩
    have htext : p ++ sep :: (a ++ sep :: q) = sep :: (s ++ [sep]) := by
      rw [← he]
      simp
    have hparts := congrArg (List.splitOn sep) htext
    rw [splitOn_bounded, List.splitOn_append_cons_self, List.splitOn_append_cons_self] at hparts
    obtain ⟨u, x, hx⟩ := List.exists_cons_of_ne_nil (List.splitOn_ne_nil sep p)
    obtain ⟨y, v, hy⟩ := (List.eq_nil_or_concat (q.splitOn sep)).resolve_left
      (List.splitOn_ne_nil sep q)
    rw [hx, hy, List.concat_eq_append, List.cons_append] at hparts
    have hrest := (List.cons.inj hparts).2
    rw [← List.append_assoc, ← List.append_assoc] at hrest
    exact ⟨x, y, (List.append_inj_left' hrest rfl)⟩

/-- A text in separators stands in a text that is put in separators too: it is the whole
of it, or its beginning or end, or inside. -/
theorem bounded_infix_iff : sep :: (a ++ [sep]) <:+: sep :: (s ++ [sep]) ↔
    s = a ∨ a ++ [sep] <+: s ∨ sep :: a <:+ s ∨ sep :: (a ++ [sep]) <:+: s := by
  constructor
  · rintro ⟨p, q, he⟩
    obtain rfl | ⟨q, d, rfl⟩ := List.eq_nil_or_concat q
    · rw [List.append_nil] at he
      cases p with
      | nil => exact .inl (List.append_inj_left' (List.cons.inj he).2 rfl).symm
      | cons c p =>
        refine .inr (.inr (.inl ⟨p, ?_⟩))
        have hrest : (p ++ sep :: a) ++ [sep] = s ++ [sep] := by
          rw [List.append_assoc]
          exact (List.cons.inj he).2
        exact List.append_inj_left' hrest rfl
    · rw [List.concat_eq_append, ← List.append_assoc] at he
      cases p with
      | nil =>
        have hrest := (List.cons.inj he).2
        exact .inr (.inl ⟨q, List.append_inj_left' hrest rfl⟩)
      | cons c p =>
        have hrest := (List.cons.inj he).2
        exact .inr (.inr (.inr ⟨p, q, List.append_inj_left' hrest rfl⟩))
  · rintro (rfl | ⟨q, rfl⟩ | ⟨p, rfl⟩ | ⟨p, q, rfl⟩)
    · exact List.infix_refl _
    · exact ⟨[], q ++ [sep], by simp⟩
    · exact ⟨sep :: p, [], by simp⟩
    · exact ⟨sep :: p, q ++ [sep], by simp⟩

end Bounded

theorem fillsSegment_self (s : List Char) : FillsSegment s s := by
  unfold FillsSegment
  split
  · rename_i hp
    intro hs
    rw [hs] at hp
    cases hp
  · rfl

theorem fills_self (pattern : String) : Fills pattern pattern :=
  List.forall₂_same.mpr fun s _ => fillsSegment_self s

theorem forall₂_fills_literal {ps ss : List (List Char)} (hl : ∀ p ∈ ps, ¬ IsParam p)
    (h : List.Forall₂ FillsSegment ps ss) : ss = ps := by
  induction h with
  | nil => rfl
  | cons hs _ ih =>
    rw [FillsSegment, if_neg (hl _ List.mem_cons_self)] at hs
    rw [hs, ih fun p hp => hl p (List.mem_cons_of_mem _ hp)]

theorem eq_of_segments {path path' : String} (h : segments path = segments path') :
    path = path' := by
  apply String.toList_inj.mp
  rw [← intercalate_segments, h, intercalate_segments]

/-- Where there is nothing to fill in, the pattern is its only instance. -/
theorem fills_literal {pattern path : String} (hl : Literal pattern) (h : Fills pattern path) :
    path = pattern := eq_of_segments (forall₂_fills_literal hl h)

theorem forall₂_fills_one {before after ss : List (List Char)} {p : List Char} (hp : IsParam p)
    (hbefore : ∀ s ∈ before, ¬ IsParam s) (hafter : ∀ s ∈ after, ¬ IsParam s)
    (h : List.Forall₂ FillsSegment (before ++ p :: after) ss) :
    ∃ x, x ≠ [] ∧ ss = before ++ x :: after := by
  induction before generalizing ss with
  | nil =>
    obtain ⟨x, ss', hx, hrest, rfl⟩ := List.forall₂_cons_left_iff.mp h
    rw [FillsSegment, if_pos hp] at hx
    exact ⟨x, hx, by rw [forall₂_fills_literal hafter hrest]; rfl⟩
  | cons b before ih =>
    obtain ⟨s, ss', hs, hrest, rfl⟩ := List.forall₂_cons_left_iff.mp h
    rw [FillsSegment, if_neg (hbefore b List.mem_cons_self)] at hs
    obtain ⟨x, hx, hss⟩ := ih (fun s hs => hbefore s (List.mem_cons_of_mem b hs)) hrest
    exact ⟨x, hx, by rw [hs, hss]; rfl⟩

theorem intercalate_append_cons {a : List (List Char)} (ha : a ≠ []) (x : List Char)
    (b : List (List Char)) :
    ['/'].intercalate (a ++ x :: b) =
      ['/'].intercalate a ++ '/' :: (x ++ ['/'].intercalate ([] :: b)) := by
  induction a with
  | nil => exact absurd rfl ha
  | cons s a ih =>
    rw [List.cons_append, List.intercalate_cons_of_ne_nil (by simp)]
    cases a with
    | nil => cases b <;> simp [List.intercalate_cons_cons]
    | cons s' a =>
      rw [ih (by simp), List.intercalate_cons_cons]
      simp only [List.append_assoc]

/-- The instances of a pattern with one parameter, from what stands around it. -/
theorem fills_one {pattern path head tail : String} {p : List Char}
    (hs : segments pattern = segments head ++ p :: (segments tail).tail) (hp : IsParam p)
    (hhead : Literal head) (htail : Literal tail) (hslash : (segments tail).head? = some [])
    (h : Fills pattern path) :
    ∃ x, x ≠ [] ∧ '/' ∉ x ∧ path.toList = head.toList ++ '/' :: (x ++ tail.toList) := by
  unfold Fills at h
  rw [hs] at h
  obtain ⟨x, hx, hpath⟩ := forall₂_fills_one hp hhead
    (fun s hs => htail s (List.mem_of_mem_tail hs)) h
  have htail' : [] :: (segments tail).tail = segments tail := by
    cases hseg : segments tail with
    | nil => rw [hseg] at hslash; cases hslash
    | cons s rest => rw [hseg] at hslash; cases hslash; rfl
  have hmem : x ∈ segments path := by
    rw [hpath]
    exact List.mem_append_right _ List.mem_cons_self
  refine ⟨x, hx, not_mem_segment hmem, ?_⟩
  rw [← intercalate_segments path, hpath, intercalate_append_cons (a := segments head)
    (List.splitOn_ne_nil '/' head.toList), intercalate_segments, htail', intercalate_segments]

/-- A slash after a blank can only stand in the tail, if there is no blank in the
head and no slash in the middle. -/
theorem infix_tail {head middle tail q : List Char} (hhead : ' ' ∉ head) (hmiddle : '/' ∉ middle)
    (h : ' ' :: '/' :: q <:+: head ++ (middle ++ tail)) : '/' :: q <:+: tail := by
  obtain ⟨u, v, he⟩ := h
  rw [List.append_assoc] at he
  -- the blank stands behind the head
  obtain ⟨u', hu⟩ : ∃ u', u' ++ ' ' :: ('/' :: q ++ v) = middle ++ tail := by
    obtain ⟨a, ha, hrest⟩ | ⟨a, _, hrest⟩ := List.append_eq_append_iff.mp he
    · cases a with
      | nil => exact ⟨[], hrest⟩
      | cons c a =>
        obtain rfl := (List.cons.inj hrest).1
        exact absurd (ha ▸ List.mem_append_right u List.mem_cons_self) hhead
    · exact ⟨a, hrest.symm⟩
  -- the slash stands behind the middle
  have hu' : (u' ++ [' ']) ++ ('/' :: q ++ v) = middle ++ tail := by
    rw [List.append_assoc]
    exact hu
  obtain ⟨a, ha, hrest⟩ | ⟨a, _, hrest⟩ := List.append_eq_append_iff.mp hu'
  · cases a with
    | nil => exact ⟨[], v, hrest⟩
    | cons c a =>
      obtain rfl := (List.cons.inj hrest).1
      exact absurd (ha ▸ List.mem_append_right _ List.mem_cons_self) hmiddle
  · exact ⟨a, v, by rw [hrest, List.append_assoc]⟩

end RivicQ.Lib.Paths
