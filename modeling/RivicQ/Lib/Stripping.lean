import Mathlib.Data.List.Infix

namespace RivicQ.Lib.Stripping

def Parted {α : Type} (words : List (List α)) : Prop :=
  [] ∉ words ∧ ∀ v ∈ words, ∀ w ∈ words, v <+: w ∨ v <:+ w → v = w

instance {α : Type} [DecidableEq α] (words : List (List α)) : Decidable (Parted words) :=
  inferInstanceAs
    (Decidable ([] ∉ words ∧ ∀ v ∈ words, ∀ w ∈ words, v <+: w ∨ v <:+ w → v = w))

/-- Words none of which is empty, begins another or ends another. -/
structure Code (α : Type) where
  words : List (List α)
  parted : Parted words

section Texts

variable {α : Type} {code : Code α} {s t v w : List α}

theorem parted_reverse (code : Code α) : Parted (code.words.map List.reverse) := by
  refine ⟨fun h => ?_, ?_⟩
  · obtain ⟨w, hw, he⟩ := List.mem_map.mp h
    exact code.parted.1 (List.reverse_eq_nil_iff.mp he ▸ hw)
  · intro v hv w hw h
    obtain ⟨v, hv', rfl⟩ := List.mem_map.mp hv
    obtain ⟨w, hw', rfl⟩ := List.mem_map.mp hw
    rw [List.reverse_prefix, List.reverse_suffix] at h
    rw [code.parted.2 v hv' w hw' h.symm]

/-- The words read backwards. -/
def Code.backward (code : Code α) : Code α := ⟨code.words.map List.reverse, parted_reverse code⟩

/-- A text made of words only. -/
def Made (code : Code α) (s : List α) : Prop :=
  ∃ ws : List (List α), (∀ w ∈ ws, w ∈ code.words) ∧ s = ws.flatten

/-- The text does not begin with a word. -/
def Bare (code : Code α) (s : List α) : Prop := ∀ w ∈ code.words, ¬ w <+: s

theorem length_word (hw : w ∈ code.words) : 0 < w.length :=
  List.length_pos_iff.mpr fun h => code.parted.1 (h ▸ hw)

theorem backward_backward : code.backward.backward.words = code.words := by
  simp [Code.backward]

theorem made_nil : Made code [] := ⟨[], List.forall_mem_nil _, rfl⟩

theorem made_cons (hw : w ∈ code.words) (h : Made code s) : Made code (w ++ s) := by
  obtain ⟨ws, hws, rfl⟩ := h
  exact ⟨w :: ws, List.forall_mem_cons.mpr ⟨hw, hws⟩, rfl⟩

theorem made_word (hw : w ∈ code.words) : Made code w := by
  have h := made_cons hw made_nil
  rwa [List.append_nil] at h

theorem made_append (hs : Made code s) (ht : Made code t) : Made code (s ++ t) := by
  obtain ⟨ws, hws, rfl⟩ := hs
  obtain ⟨us, hus, rfl⟩ := ht
  exact ⟨ws ++ us, List.forall_mem_append.mpr ⟨hws, hus⟩, List.flatten_append.symm⟩

theorem made_reverse (h : Made code s) : Made code.backward s.reverse := by
  obtain ⟨ws, hws, rfl⟩ := h
  refine ⟨(ws.map List.reverse).reverse, ?_, List.reverse_flatten⟩
  intro w hw
  obtain ⟨u, hu, rfl⟩ := List.mem_map.mp (List.mem_reverse.mp hw)
  exact List.mem_map_of_mem (hws u hu)

theorem made_backward (h : Made code.backward s) : Made code s.reverse := by
  obtain ⟨ws, hws, he⟩ := made_reverse h
  exact ⟨ws, fun w hw => backward_backward ▸ hws w hw, he⟩

/-- A text that is made of words and not empty begins with one of them. -/
theorem exists_word (h : Made code s) (hne : s ≠ []) : ∃ w ∈ code.words, w <+: s := by
  obtain ⟨ws, hws, rfl⟩ := h
  cases ws with
  | nil => exact absurd rfl hne
  | cons w ws => exact ⟨w, hws w List.mem_cons_self, List.prefix_append w ws.flatten⟩

theorem bare_nil : Bare code [] := by
  intro w hw h
  rw [List.prefix_nil] at h
  exact code.parted.1 (h ▸ hw)

/-- An element that begins no word keeps a text bare, whatever follows it. -/
theorem bare_cons {a : α} (h : ∀ w ∈ code.words, w.head? ≠ some a) : Bare code (a :: s) := by
  intro w hw hp
  cases w with
  | nil => exact code.parted.1 hw
  | cons b w => exact h _ hw (congrArg some (List.cons_prefix_cons.mp hp).1)

end Texts

section Strip

variable {α : Type} [DecidableEq α] (code : Code α)

/-- Take words off the front of a text, at most so many. -/
def strip : Nat → List α → List α
  | 0, s => s
  | n + 1, s =>
    match code.words.find? (fun w => w.isPrefixOf s) with
    | some w => strip n (s.drop w.length)
    | none => s

/-- A text without the words at its front. -/
def trimLeft (s : List α) : List α := strip code s.length s

/-- A text without the words at its end. -/
def trimRight (s : List α) : List α := (trimLeft code.backward s.reverse).reverse

def trim (s : List α) : List α := trimRight code (trimLeft code s)

variable {code} {s t v w : List α} {n : Nat}

theorem strip_word (hw : w ∈ code.words) (s : List α) :
    strip code (n + 1) (w ++ s) = strip code n s := by
  have hws : w.isPrefixOf (w ++ s) = true := List.isPrefixOf_iff_prefix.mpr (List.prefix_append w s)
  rw [strip]
  cases hfind : code.words.find? (fun u => u.isPrefixOf (w ++ s)) with
  | none => exact absurd hws (List.find?_eq_none.mp hfind w hw)
  | some v =>
    have hv := List.mem_of_find?_eq_some hfind
    have hvw : v.isPrefixOf (w ++ s) = true :=
      List.find?_some (p := fun u : List α => u.isPrefixOf (w ++ s)) hfind
    have hvs : v <+: w ++ s := List.isPrefixOf_iff_prefix.mp hvw
    -- two words that begin one text begin one another
    have he : v = w := by
      rcases List.prefix_or_prefix_of_prefix hvs (List.prefix_append w s) with h | h
      · exact code.parted.2 v hv w hw (.inl h)
      · exact (code.parted.2 w hw v hv (.inl h)).symm
    change strip code n ((w ++ s).drop v.length) = _
    rw [he, List.drop_left]

theorem strip_bare (h : Bare code s) : strip code n s = s := by
  cases n with
  | zero => rfl
  | succ n =>
    have hnone : code.words.find? (fun w => w.isPrefixOf s) = none :=
      List.find?_eq_none.mpr fun w hw hp => h w hw (List.isPrefixOf_iff_prefix.mp hp)
    rw [strip, hnone]

/-- Words in front of a bare text come off. -/
theorem strip_made (hv : Made code v) (hs : Bare code s) (hn : v.length ≤ n) :
    strip code n (v ++ s) = s := by
  obtain ⟨ws, hws, rfl⟩ := hv
  induction ws generalizing n with
  | nil => exact strip_bare hs
  | cons w ws ih =>
    have hw := hws w List.mem_cons_self
    have hpos := length_word hw
    rw [List.flatten_cons, List.length_append] at hn
    obtain ⟨m, rfl⟩ : ∃ m, n = m + 1 := ⟨n - 1, by omega⟩
    rw [List.flatten_cons, List.append_assoc, strip_word hw]
    have hrest : ws.flatten.length ≤ m := by omega
    exact ih (fun u hu => hws u (List.mem_cons_of_mem w hu)) hrest

/-- What comes off is made of words, and what stays is bare. -/
theorem strip_spec (hn : s.length ≤ n) :
    ∃ v, Made code v ∧ s = v ++ strip code n s ∧ Bare code (strip code n s) := by
  induction n generalizing s with
  | zero =>
    obtain rfl := List.length_eq_zero_iff.mp (Nat.le_zero.mp hn)
    exact ⟨[], made_nil, rfl, bare_nil⟩
  | succ n ih =>
    by_cases hs : Bare code s
    · rw [strip_bare hs]
      exact ⟨[], made_nil, rfl, hs⟩
    · obtain ⟨w, hw, u, rfl⟩ : ∃ w ∈ code.words, w <+: s := by
        simpa only [Bare, not_forall, not_not, exists_prop] using hs
      have hpos := length_word hw
      rw [List.length_append] at hn
      obtain ⟨v, hv, he, hbare⟩ := ih (s := u) (by omega)
      rw [strip_word hw]
      exact ⟨w ++ v, made_cons hw hv, by rw [List.append_assoc, ← he], hbare⟩

theorem trimLeft_made (hv : Made code v) (hs : Bare code s) : trimLeft code (v ++ s) = s :=
  strip_made hv hs (by rw [List.length_append]; omega)

theorem trimRight_made (hv : Made code v) (hs : Bare code.backward s.reverse) :
    trimRight code (s ++ v) = s := by
  rw [trimRight, List.reverse_append, trimLeft_made (made_reverse hv) hs, List.reverse_reverse]

theorem trimLeft_spec (code : Code α) (s : List α) :
    ∃ v, Made code v ∧ s = v ++ trimLeft code s ∧ Bare code (trimLeft code s) :=
  strip_spec (Nat.le_refl s.length)

theorem trimRight_spec (code : Code α) (s : List α) :
    ∃ v, Made code v ∧ s = trimRight code s ++ v ∧
      Bare code.backward (trimRight code s).reverse := by
  obtain ⟨v, hv, he, hbare⟩ := trimLeft_spec code.backward s.reverse
  refine ⟨v.reverse, made_backward hv, ?_, ?_⟩
  · rw [trimRight, ← List.reverse_append, ← he, List.reverse_reverse]
  · rwa [trimRight, List.reverse_reverse]

/-- A text of words trims to nothing. -/
theorem trim_blank (hv : Made code v) : trim code v = [] := by
  have h := trimLeft_made hv bare_nil
  rw [List.append_nil] at h
  rw [trim, h]
  rfl

/-- A text that neither ends in an element that may begin or end a word is kept from between
words. -/
theorem trim_made {a b : α} (hv : Made code v) (hw : Made code w)
    (hfirst : ∀ u ∈ code.words, u.head? ≠ some a) (hs : s.head? = some a)
    (hlast : ∀ u ∈ code.words, u.getLast? ≠ some b) (ht : s.getLast? = some b) :
    trim code (v ++ s ++ w) = s := by
  obtain ⟨s', rfl⟩ := List.head?_eq_some_iff.mp hs
  have hback : Bare code.backward (a :: s').reverse := by
    obtain ⟨s'', he⟩ := List.getLast?_eq_some_iff.mp ht
    rw [he, List.reverse_concat]
    refine bare_cons fun u hu => ?_
    obtain ⟨u, hu', rfl⟩ := List.mem_map.mp hu
    rw [List.head?_reverse]
    exact hlast u hu'
  have hfront : trimLeft code (v ++ (a :: s' ++ w)) = a :: s' ++ w :=
    trimLeft_made hv (bare_cons hfirst)
  rw [trim, List.append_assoc, hfront, trimRight_made hw hback]

/-- What trimming takes off at the two ends is made of words, and no word is left at the end. -/
theorem trim_spec (code : Code α) (s : List α) :
    ∃ v w, Made code v ∧ Made code w ∧ s = v ++ trim code s ++ w ∧
      Bare code.backward (trim code s).reverse := by
  obtain ⟨v, hv, hs, -⟩ := trimLeft_spec code s
  obtain ⟨w, hw, ht, hbare⟩ := trimRight_spec code (trimLeft code s)
  refine ⟨v, w, hv, hw, ?_, hbare⟩
  rw [List.append_assoc, trim, ← ht, ← hs]

/-- Only a text of words trims to nothing. -/
theorem trim_eq_nil_iff : trim code s = [] ↔ Made code s := by
  refine ⟨fun h => ?_, trim_blank⟩
  obtain ⟨v, w, hv, hw, he, -⟩ := trim_spec code s
  rw [he, h, List.append_nil]
  exact made_append hv hw

/-- Nothing made of words is left at the end. -/
theorem eq_nil_of_trim {u : List α} (he : trim code s = t ++ u) (hu : Made code u) : u = [] := by
  obtain ⟨v, w, -, -, -, hbare⟩ := trim_spec code s
  by_contra hne
  obtain ⟨x, hx, hp⟩ := exists_word (made_reverse hu) (List.reverse_eq_nil_iff.not.mpr hne)
  rw [he, List.reverse_append] at hbare
  exact hbare x hx (hp.trans (List.prefix_append _ _))

end Strip

end RivicQ.Lib.Stripping
