import RivicQ.Lib.Paths

namespace RivicQ.Lib.FilePaths

open RivicQ.Lib.GoStrings RivicQ.Lib.Paths

abbrev Name := List Char

def dotdot : Name := ['.', '.']

/-- A name that is neither empty nor one of the two that have a meaning of their
own. -/
def Proper (e : Name) : Prop := e ≠ [] ∧ e ≠ ['.'] ∧ e ≠ dotdot

def isAbs (path : String) : Bool := hasPrefix path "/"

/-- Put an element behind others, which stand in reverse. -/
def push (rooted : Bool) (acc : List Name) (e : Name) : List Name :=
  if e = [] ∨ e = ['.'] then acc
  else if e = dotdot then
    match acc with
    | [] => if rooted then [] else [e]
    | top :: rest => if top = dotdot then e :: acc else rest
  else e :: acc

def reduce (rooted : Bool) (es : List Name) : List Name := (es.foldl (push rooted) []).reverse

def render (rooted : Bool) (es : List Name) : List Char :=
  if rooted then '/' :: ['/'].intercalate es
  else if es = [] then ['.']
  else ['/'].intercalate es

/-- What a path names, element by element. -/
def elements (path : String) : List Name := reduce (isAbs path) (path.toList.splitOn '/')

def clean (path : String) : String := String.ofList (render (isAbs path) (elements path))

/-- `Join` of two elements. -/
def join (a b : String) : String :=
  if a ≠ "" then clean (a ++ "/" ++ b) else if b ≠ "" then clean b else ""

/-- `Abs`, with the working directory, where there is one. -/
def abs (wd : Option String) (path : String) : Option String :=
  if isAbs path then some (clean path) else wd.map (join · path)

/-- The directory of a path, up to its last slash. -/
def dir (path : String) : String :=
  clean (String.ofList (path.toList.rdropWhile (· != '/')))

def base (path : String) : String :=
  if path = "" then "."
  else
    let s := path.toList.rdropWhile (· == '/')
    if s = [] then "/" else String.ofList (s.rtakeWhile (· != '/'))

/-- The last element of a path from its last dot on, or nothing. -/
def ext (path : String) : String :=
  let name := path.toList.rtakeWhile (· != '/')
  if '.' ∈ name then String.ofList ('.' :: name.rtakeWhile (· != '.')) else ""

/-- Two lists without their common first part. -/
def differ : List Name → List Name → List Name × List Name
  | b :: bs, t :: ts => if b = t then differ bs ts else (b :: bs, t :: ts)
  | bs, ts => (bs, ts)

/-- The names of a cleaned path. -/
def names (s : List Char) : List Name :=
  let s := if s.head? = some '/' then s.tail else s
  if s = [] then [] else s.splitOn '/'

def rel (basepath targpath : String) : Option String :=
  let b := clean basepath
  let t := clean targpath
  if t = b then some "."
  else
    let b := if b = "." then "" else b
    if isAbs b ≠ isAbs t then none
    else
      let (bs, ts) := differ (names b.toList) (names t.toList)
      if bs.head? = some dotdot then none
      else some (String.ofList (['/'].intercalate (List.replicate bs.length dotdot ++ ts)))

section Reduction

variable {rooted : Bool} {acc es : List Name} {e : Name}

theorem push_skip (h : e = [] ∨ e = ['.']) : push rooted acc e = acc := if_pos h

theorem push_proper (h : Proper e) : push rooted acc e = e :: acc := by
  unfold push
  rw [if_neg (not_or.mpr ⟨h.1, h.2.1⟩), if_neg h.2.2]

theorem push_dotdot (h : Proper e) : push rooted (e :: acc) dotdot = acc := by
  have hempty : ¬ (dotdot = [] ∨ dotdot = ['.']) := by decide
  unfold push
  rw [if_neg hempty, if_pos rfl]
  exact if_neg h.2.2

/-- The elements that are left are names of their own, or lead upwards. -/
theorem mem_push (h : ∀ x ∈ acc, Proper x ∨ x = dotdot) :
    ∀ x ∈ push rooted acc e, Proper x ∨ x = dotdot := by
  intro x hx
  unfold push at hx
  split at hx
  · exact h x hx
  · rename_i hne
    obtain ⟨hempty, hdot⟩ := not_or.mp hne
    split at hx
    · rename_i hup
      cases acc with
      | nil =>
        simp only at hx
        split at hx
        · cases hx
        · rw [List.mem_singleton.mp hx]
          exact Or.inr hup
      | cons top rest =>
        simp only at hx
        split at hx
        · obtain rfl | hx := List.mem_cons.mp hx
          · exact Or.inr hup
          · exact h x hx
        · exact h x (List.mem_cons_of_mem top hx)
    · rename_i hup
      obtain rfl | hx := List.mem_cons.mp hx
      · exact Or.inl ⟨hempty, hdot, hup⟩
      · exact h x hx

theorem mem_foldl_push (h : ∀ x ∈ acc, Proper x ∨ x = dotdot) (es : List Name) :
    ∀ x ∈ es.foldl (push rooted) acc, Proper x ∨ x = dotdot := by
  induction es generalizing acc with
  | nil => exact h
  | cons e es ih => exact ih (mem_push h)

theorem mem_reduce {x : Name} (hx : x ∈ reduce rooted es) : Proper x ∨ x = dotdot :=
  mem_foldl_push (by simp) es x (List.mem_reverse.mp hx)

/-- Nothing leads above the root. -/
theorem foldl_push_rooted (h : ∀ x ∈ acc, Proper x) (es : List Name) :
    ∀ x ∈ es.foldl (push true) acc, Proper x := by
  induction es generalizing acc with
  | nil => exact h
  | cons e es ih =>
    apply ih
    intro x hx
    unfold push at hx
    split at hx
    · exact h x hx
    · rename_i hne
      obtain ⟨hempty, hdot⟩ := not_or.mp hne
      split at hx
      · cases acc with
        | nil => cases hx
        | cons top rest =>
          simp only [if_neg (h top List.mem_cons_self).2.2] at hx
          exact h x (List.mem_cons_of_mem top hx)
      · rename_i hup
        obtain rfl | hx := List.mem_cons.mp hx
        · exact ⟨hempty, hdot, hup⟩
        · exact h x hx

theorem proper_reduce {x : Name} (hx : x ∈ reduce true es) : Proper x :=
  foldl_push_rooted (by simp) es x (List.mem_reverse.mp hx)

theorem foldl_push_proper (h : ∀ x ∈ es, Proper x) :
    es.foldl (push rooted) acc = es.reverse ++ acc := by
  induction es generalizing acc with
  | nil => rfl
  | cons e es ih =>
    rw [List.foldl_cons, push_proper (h e List.mem_cons_self),
      ih fun x hx => h x (List.mem_cons_of_mem e hx), List.reverse_cons, List.append_assoc]
    rfl

theorem reduce_proper (h : ∀ x ∈ es, Proper x) : reduce rooted es = es := by
  rw [reduce, foldl_push_proper h, List.append_nil, List.reverse_reverse]

/-- It makes no difference to reduce elements before they are put behind others. -/
theorem foldl_push_reduce (es : List Name) (acc : List Name) :
    (reduce false es).foldl (push rooted) acc = es.foldl (push rooted) acc := by
  induction es using List.reverseRecOn with
  | nil => rfl
  | append_singleton es e ih =>
    have hstep : reduce false (es ++ [e]) = (push false (reduce false es).reverse e).reverse := by
      rw [reduce, List.foldl_append, List.foldl_cons, List.foldl_nil, reduce,
        List.reverse_reverse]
    rw [hstep, List.foldl_append, List.foldl_cons, List.foldl_nil, ← ih]
    by_cases hskip : e = [] ∨ e = ['.']
    · rw [push_skip hskip, List.reverse_reverse, push_skip hskip]
    by_cases hup : e = dotdot
    · subst hup
      obtain hnil | ⟨front, top, hfront⟩ := List.eq_nil_or_concat (reduce false es)
      · rw [hnil]
        rfl
      · rw [List.concat_eq_append] at hfront
        have htop := @mem_reduce _ es top (by rw [hfront]; simp)
        rw [hfront, List.reverse_append, List.reverse_singleton, List.singleton_append]
        obtain htop | rfl := htop
        · rw [push_dotdot htop, List.reverse_reverse, List.foldl_append, List.foldl_cons,
            List.foldl_nil, push_proper htop, push_dotdot htop]
        · have hkeep : push false (dotdot :: front.reverse) dotdot =
              dotdot :: dotdot :: front.reverse := rfl
          rw [hkeep, List.reverse_cons, List.reverse_cons, List.reverse_reverse,
            List.foldl_append, List.foldl_cons, List.foldl_nil]
    · obtain ⟨hempty, hdot⟩ := not_or.mp hskip
      rw [push_proper ⟨hempty, hdot, hup⟩, List.reverse_cons, List.reverse_reverse,
        List.foldl_append, List.foldl_cons, List.foldl_nil]

theorem reduce_reduce : reduce rooted (reduce rooted es) = reduce rooted es := by
  cases rooted with
  | true => exact reduce_proper fun x hx => proper_reduce hx
  | false => rw [reduce, foldl_push_reduce, ← reduce]

theorem reduce_skip : reduce rooted ([] :: es) = reduce rooted es := rfl

/-- In front of a path that is not rooted, what leads up comes before the names. -/
def Leading (acc : List Name) : Prop :=
  ∃ ps k, acc = ps ++ List.replicate k dotdot ∧ ∀ p ∈ ps, Proper p

theorem leading_push (h : Leading acc) : Leading (push false acc e) := by
  by_cases hskip : e = [] ∨ e = ['.']
  · rwa [push_skip hskip]
  obtain ⟨ps, k, rfl, hps⟩ := h
  by_cases hup : e = dotdot
  · subst hup
    cases ps with
    | nil =>
      refine ⟨[], k + 1, ?_, hps⟩
      cases k <;> rfl
    | cons p ps =>
      obtain ⟨hp, hps⟩ := List.forall_mem_cons.mp hps
      rw [List.cons_append, push_dotdot hp]
      exact ⟨ps, k, rfl, hps⟩
  · have hproper : Proper e := ⟨fun h => hskip (.inl h), fun h => hskip (.inr h), hup⟩
    rw [push_proper hproper]
    exact ⟨e :: ps, k, rfl, List.forall_mem_cons.mpr ⟨hproper, hps⟩⟩

theorem leading_foldl (h : Leading acc) (es : List Name) : Leading (es.foldl (push false) acc) := by
  induction es generalizing acc with
  | nil => exact h
  | cons e es ih => exact ih (leading_push h)

theorem head_reduce (h : dotdot ∈ reduce false es) : (reduce false es).head? = some dotdot := by
  have hnil : Leading [] := ⟨[], 0, rfl, fun p hp => nomatch hp⟩
  obtain ⟨ps, k, hacc, hps⟩ := leading_foldl hnil es
  rw [reduce, hacc] at h ⊢
  rw [List.mem_reverse, List.mem_append] at h
  have hk : k ≠ 0 := by
    rintro rfl
    obtain h | h := h
    · exact (hps _ h).2.2 rfl
    · exact nomatch h
  obtain ⟨k, rfl⟩ := Nat.exists_eq_succ_of_ne_zero hk
  rw [List.reverse_append, List.reverse_replicate]
  rfl

end Reduction

section Cleaning

variable {rooted : Bool} {es : List Name} {e : Name} {a b path : String}

theorem mem_foldl_push_mem (es acc : List Name) :
    ∀ x ∈ es.foldl (push rooted) acc, x ∈ acc ∨ x ∈ es := by
  induction es generalizing acc with
  | nil => exact fun x hx => Or.inl hx
  | cons e es ih =>
    intro x hx
    obtain hx | hx := ih _ x hx
    · unfold push at hx
      split at hx
      · exact Or.inl hx
      · split at hx
        · cases acc with
          | nil =>
            simp only at hx
            split at hx
            · cases hx
            · exact Or.inr (List.mem_singleton.mp hx ▸ List.mem_cons_self)
          | cons top rest =>
            simp only at hx
            split at hx
            · obtain rfl | hx := List.mem_cons.mp hx
              · exact Or.inr List.mem_cons_self
              · exact Or.inl hx
            · exact Or.inl (List.mem_cons_of_mem top hx)
        · obtain rfl | hx := List.mem_cons.mp hx
          · exact Or.inr List.mem_cons_self
          · exact Or.inl hx
    · exact Or.inr (List.mem_cons_of_mem e hx)

theorem slash_not_mem_elements {e : Name} (he : e ∈ elements path) : '/' ∉ e := by
  obtain h | h := mem_foldl_push_mem _ _ e (List.mem_reverse.mp he)
  · cases h
  · exact not_mem_segment h

theorem elements_ne_nil {e : Name} (he : e ∈ elements path) : e ≠ [] := by
  obtain h | rfl := mem_reduce he
  · exact h.1
  · decide

theorem isAbs_iff {s : List Char} : isAbs (String.ofList s) = true ↔ s.head? = some '/' := by
  unfold isAbs hasPrefix
  simp only [decide_eq_true_iff, String.toList_ofList]
  constructor
  · rintro ⟨t, rfl⟩
    rfl
  · intro h
    cases s with
    | nil => cases h
    | cons c s =>
      cases h
      exact ⟨s, rfl⟩

theorem isAbs_toList : isAbs path = true ↔ path.toList.head? = some '/' := by
  rw [← isAbs_iff, String.ofList_toList]

theorem split_intercalate (hne : es ≠ []) (hes : ∀ e ∈ es, '/' ∉ e) :
    (['/'].intercalate es).splitOn '/' = es := List.splitOn_intercalate '/' hes hne

theorem head_intercalate (hes : ∀ e ∈ es, e ≠ [] ∧ '/' ∉ e) :
    (['/'].intercalate es).head? ≠ some '/' := by
  cases es with
  | nil => simp
  | cons e es =>
    obtain ⟨hne, hslash⟩ := hes e List.mem_cons_self
    obtain ⟨c, rest, rfl⟩ := List.exists_cons_of_ne_nil hne
    have hc : c ≠ '/' := fun h => hslash (h ▸ List.mem_cons_self)
    cases es with
    | nil => simpa using hc
    | cons e' es => simpa [List.intercalate_cons_cons] using hc

theorem isAbs_clean : isAbs (clean path) = isAbs path := by
  have hes : ∀ e ∈ elements path, e ≠ [] ∧ '/' ∉ e := fun e he =>
    ⟨elements_ne_nil he, slash_not_mem_elements he⟩
  rw [Bool.eq_iff_iff, clean, isAbs_iff]
  cases h : isAbs path with
  | true => simp [render]
  | false =>
    simp only [render, Bool.false_eq_true, if_false, iff_false]
    split
    · decide
    · exact head_intercalate hes

theorem split_render (hne : es ≠ []) (hes : ∀ e ∈ es, '/' ∉ e) :
    (render true es).splitOn '/' = [] :: es := by
  have happend := List.splitOn_append_cons_self (a := '/') [] (['/'].intercalate es)
  rw [split_intercalate hne hes] at happend
  exact happend

theorem elements_clean : elements (clean path) = elements path := by
  have hes : ∀ e ∈ elements path, '/' ∉ e := fun e he => slash_not_mem_elements he
  have hreduce : reduce (isAbs path) (elements path) = elements path := reduce_reduce
  have htext : (clean path).toList = render (isAbs path) (elements path) :=
    String.toList_ofList
  have hclean : elements (clean path) =
      reduce (isAbs path) ((render (isAbs path) (elements path)).splitOn '/') := by
    rw [elements, isAbs_clean, htext]
  rw [hclean]
  by_cases hnil : elements path = []
  · rw [hnil]
    cases isAbs path <;> rfl
  · cases h : isAbs path with
    | true => rw [split_render hnil hes, reduce_skip, ← h, hreduce]
    | false =>
      have hrender : render false (elements path) = ['/'].intercalate (elements path) := by
        simp [render, hnil]
      rw [hrender, split_intercalate hnil hes, ← h, hreduce]

@[simp] theorem clean_clean : clean (clean path) = clean path := by
  rw [clean, isAbs_clean, elements_clean]
  rfl

theorem mem_of_mem_splitOn {sep c : Char} {cs s : List Char} (hs : s ∈ cs.splitOn sep)
    (hc : c ∈ s) : c ∈ cs := by
  have hmem : ∀ es : List (List Char), s ∈ es → c ∈ [sep].intercalate es := by
    intro es hs
    induction es with
    | nil => exact nomatch hs
    | cons e es ih =>
      cases es with
      | nil => simpa [List.mem_singleton.mp hs] using hc
      | cons e' es =>
        rw [List.intercalate_cons_cons, List.append_assoc, List.mem_append, List.mem_append]
        obtain rfl | hs := List.mem_cons.mp hs
        · exact .inl hc
        · exact .inr (.inr (ih hs))
  have hcs : [sep].intercalate (cs.splitOn sep) = cs := List.intercalate_splitOn sep
  exact hcs ▸ hmem _ hs

/-- The characters of a cleaned path are its own, but for the separators and dots. -/
theorem mem_clean {c : Char} (h : c ∈ (clean path).toList) :
    c ∈ path.toList ∨ c = '/' ∨ c = '.' := by
  have helement : ∀ es : List Name, (∀ e ∈ es, ∀ c ∈ e, c ∈ path.toList ∨ c = '/' ∨ c = '.') →
      c ∈ ['/'].intercalate es → c ∈ path.toList ∨ c = '/' ∨ c = '.' := by
    intro es hes hc
    induction es with
    | nil => exact nomatch hc
    | cons e es ih =>
      obtain ⟨he, hes⟩ := List.forall_mem_cons.mp hes
      cases es with
      | nil => exact he c (by simpa using hc)
      | cons e' es =>
        rw [List.intercalate_cons_cons, List.append_assoc, List.mem_append, List.mem_append] at hc
        obtain hc | hc | hc := hc
        · exact he c hc
        · exact .inr (.inl (List.mem_singleton.mp hc))
        · exact ih hes hc
  have hes : ∀ e ∈ elements path, ∀ c ∈ e, c ∈ path.toList ∨ c = '/' ∨ c = '.' := by
    intro e he c hc
    obtain h | h := mem_foldl_push_mem _ _ e (List.mem_reverse.mp he)
    · exact nomatch h
    · exact .inl (mem_of_mem_splitOn h hc)
  rw [clean, String.toList_ofList, render] at h
  split_ifs at h
  · obtain rfl | h := List.mem_cons.mp h
    · exact .inr (.inl rfl)
    · exact helement _ hes h
  · exact .inr (.inr (List.mem_singleton.mp h))
  · exact helement _ hes h

theorem isAbs_append (ha : a ≠ "") : isAbs (a ++ "/" ++ b) = isAbs a := by
  rw [Bool.eq_iff_iff, isAbs_toList, isAbs_toList]
  cases h : a.toList with
  | nil => exact absurd (String.toList_inj.mp h) ha
  | cons c s => simp [h]

theorem elements_append (ha : a ≠ "") : elements (a ++ "/" ++ b) =
    reduce (isAbs a) (a.toList.splitOn '/' ++ b.toList.splitOn '/') := by
  have htext : (a ++ "/" ++ b).toList = a.toList ++ '/' :: b.toList := by simp
  rw [elements, isAbs_append ha, htext, List.splitOn_append_cons_self]

theorem clean_append_eq {b' : String} (ha : a ≠ "")
    (h : ∀ acc : List Name, (b.toList.splitOn '/').foldl (push (isAbs a)) acc =
      (b'.toList.splitOn '/').foldl (push (isAbs a)) acc) :
    clean (a ++ "/" ++ b) = clean (a ++ "/" ++ b') := by
  rw [clean, clean, isAbs_append ha, isAbs_append ha, elements_append ha, elements_append ha,
    reduce, reduce, List.foldl_append, List.foldl_append, h]

theorem join_empty (ha : a ≠ "") : join a "" = clean a := by
  rw [join, if_pos ha, clean, isAbs_append ha, elements_append ha, reduce, List.foldl_append]
  rfl

/-- Doubled slashes do not matter to `Join`. -/
theorem join_slash (ha : a ≠ "") : join a ("/" ++ b) = join a b := by
  rw [join, join, if_pos ha, if_pos ha]
  apply clean_append_eq ha
  intro acc
  have hsplit : ("/" ++ b).toList.splitOn '/' = [] :: b.toList.splitOn '/' := by
    have happend := List.splitOn_append_cons_self (a := '/') [] b.toList
    simpa using happend
  rw [hsplit]
  rfl

theorem clean_ne_empty : clean path ≠ "" := by
  intro h
  have hlist := congrArg String.toList h
  rw [clean, String.toList_ofList] at hlist
  unfold render at hlist
  split at hlist
  · cases hlist
  · split at hlist
    · cases hlist
    · rename_i hnil
      obtain ⟨e, es, he⟩ := List.exists_cons_of_ne_nil hnil
      have hne : e ≠ [] := @elements_ne_nil path _ (by rw [he]; exact List.mem_cons_self)
      rw [he] at hlist
      cases es with
      | nil => exact hne (by simpa using hlist)
      | cons e' es => simp [List.intercalate_cons_cons] at hlist

theorem split_clean (rooted : Bool) (acc : List Name) (h : isAbs b = false) :
    ((clean b).toList.splitOn '/').foldl (push rooted) acc =
      (b.toList.splitOn '/').foldl (push rooted) acc := by
  have hes : ∀ e ∈ elements b, '/' ∉ e := fun e he => slash_not_mem_elements he
  have helements : elements b = reduce false (b.toList.splitOn '/') := by rw [elements, h]
  rw [← foldl_push_reduce (b.toList.splitOn '/'), ← helements, clean, String.toList_ofList, h]
  by_cases hnil : elements b = []
  · rw [hnil]
    rfl
  · have hrender : render false (elements b) = ['/'].intercalate (elements b) := by
      simp [render, hnil]
    rw [hrender, split_intercalate hnil hes]

theorem isAbs_abs {wd : Option String} (hwd : ∀ w ∈ wd, isAbs w = true) (h : abs wd a = some b) :
    isAbs b = true := by
  unfold abs at h
  split_ifs at h with ha
  · obtain rfl := Option.some.inj h
    rw [isAbs_clean, ha]
  · obtain ⟨w, hw, rfl⟩ := Option.map_eq_some_iff.mp h
    have hne : w ≠ "" := by
      rintro rfl
      exact absurd (hwd "" hw) (by decide)
    rw [join, if_pos hne, isAbs_clean, isAbs_append hne, hwd w hw]

/-- The absolute path of some names. -/
def ofElements (es : List Name) : String := String.ofList (render true es)

/-- An absolute path that is clean. -/
def Canonical (path : String) : Prop := isAbs path = true ∧ clean path = path

theorem ofElements_elements (h : Canonical path) : ofElements (elements path) = path := by
  obtain ⟨habs, hclean⟩ := h
  nth_rewrite 2 [← hclean]
  rw [clean, habs]
  rfl

theorem toList_canonical (h : Canonical path) : path.toList = render true (elements path) := by
  nth_rewrite 1 [← ofElements_elements h]
  rw [ofElements, String.toList_ofList]

theorem isAbs_ofElements : isAbs (ofElements es) = true := by
  rw [ofElements, isAbs_iff, render]
  rfl

theorem elements_ofElements (hes : ∀ e ∈ es, Proper e ∧ '/' ∉ e) :
    elements (ofElements es) = es := by
  rw [elements, isAbs_ofElements, ofElements, String.toList_ofList]
  by_cases hnil : es = []
  · rw [hnil]
    rfl
  · rw [split_render hnil fun e he => (hes e he).2, reduce_skip,
      reduce_proper fun e he => (hes e he).1]

theorem canonical_ofElements (hes : ∀ e ∈ es, Proper e ∧ '/' ∉ e) : Canonical (ofElements es) := by
  refine ⟨isAbs_ofElements, ?_⟩
  rw [clean, isAbs_ofElements, elements_ofElements hes]
  rfl

theorem proper_elements (h : Canonical path) {e : Name} (he : e ∈ elements path) : Proper e := by
  rw [elements, h.1] at he
  exact proper_reduce he

/-- A name of its own is put behind a path. -/
theorem elements_join (ha : a ≠ "") (he : Proper e) (hslash : '/' ∉ e) :
    elements (join a (String.ofList e)) = elements a ++ [e] := by
  rw [join, if_pos ha, elements_clean, elements_append ha, String.toList_ofList,
    List.splitOn_eq_singleton hslash, reduce, List.foldl_append, List.foldl_cons, List.foldl_nil,
    push_proper he, List.reverse_cons]
  rfl

theorem canonical_join (h : Canonical a) : Canonical (join a b) := by
  have ha : a ≠ "" := by
    rintro rfl
    exact absurd h.1 (by decide)
  rw [join, if_pos ha]
  exact ⟨by rw [isAbs_clean, isAbs_append ha, h.1], clean_clean⟩

theorem canonical_abs {wd : Option String} (hwd : ∀ w ∈ wd, isAbs w = true) (h : abs wd a = some b) :
    Canonical b := by
  refine ⟨isAbs_abs hwd h, ?_⟩
  unfold abs at h
  split_ifs at h
  · obtain rfl := Option.some.inj h
    exact clean_clean
  · obtain ⟨w, hw, rfl⟩ := Option.map_eq_some_iff.mp h
    have hne : w ≠ "" := by
      rintro rfl
      exact absurd (hwd "" hw) (by decide)
    rw [join, if_pos hne, clean_clean]

/-- Cleaning a path first does not change what it is made to. -/
theorem abs_clean (wd : Option String) (hb : b ≠ "") : abs wd (clean b) = abs wd b := by
  unfold abs
  rw [isAbs_clean]
  cases h : isAbs b with
  | true => rw [if_pos rfl, if_pos rfl, clean_clean]
  | false =>
    simp only [Bool.false_eq_true, if_false]
    congr 1
    funext w
    unfold join
    by_cases hw : w = ""
    · rw [if_neg (not_not.mpr hw), if_neg (not_not.mpr hw), if_pos clean_ne_empty, if_pos hb,
        clean_clean]
    · rw [if_pos hw, if_pos hw]
      exact clean_append_eq hw fun acc => split_clean _ acc h

end Cleaning

section Relative

variable {bs ts : List Name} {base target : String}

/-- Nothing is left of the first list if the second goes on from it. -/
theorem differ_eq_nil : (differ bs ts).1 = [] ↔ bs <+: ts := by
  induction bs generalizing ts with
  | nil => simp [differ]
  | cons b bs ih =>
    cases ts with
    | nil => simp [differ]
    | cons t ts =>
      rw [differ]
      split_ifs with h
      · rw [ih, h, List.cons_prefix_cons]
        simp
      · simp [List.cons_prefix_cons, h]

theorem differ_append (bs ts : List Name) :
    ∃ front, bs = front ++ (differ bs ts).1 ∧ ts = front ++ (differ bs ts).2 := by
  induction bs generalizing ts with
  | nil => exact ⟨[], rfl, by simp [differ]⟩
  | cons b bs ih =>
    cases ts with
    | nil => exact ⟨[], rfl, rfl⟩
    | cons t ts =>
      rw [differ]
      split_ifs with h
      · obtain ⟨front, hb, ht⟩ := @ih ts
        refine ⟨b :: front, ?_, ?_⟩
        · rw [List.cons_append, ← hb]
        · rw [List.cons_append, ← ht, h]
      · exact ⟨[], rfl, rfl⟩

theorem names_render (hes : ∀ e ∈ bs, e ≠ [] ∧ '/' ∉ e) : names (render true bs) = bs := by
  have htail : (render true bs).tail = ['/'].intercalate bs := rfl
  have hhead : (render true bs).head? = some '/' := rfl
  simp only [names, hhead, if_true, htail]
  by_cases hnil : bs = []
  · simp [hnil]
  have hsplit := split_intercalate hnil fun e he => (hes e he).2
  split_ifs with hempty
  · rw [hempty, List.splitOn_nil] at hsplit
    exact absurd rfl (hes [] (hsplit ▸ List.mem_singleton_self [])).1
  · exact hsplit

theorem names_canonical (h : Canonical base) : names base.toList = elements base := by
  rw [toList_canonical h, names_render fun e he => ⟨elements_ne_nil he, slash_not_mem_elements he⟩]

/-- The way from one path to another, up and then down. -/
theorem rel_canonical (hb : Canonical base) (ht : Canonical target) (hne : target ≠ base) :
    rel base target = some (String.ofList (['/'].intercalate
      (List.replicate (differ (elements base) (elements target)).1.length dotdot ++
        (differ (elements base) (elements target)).2))) := by
  have hdot : base ≠ "." := by
    rintro rfl
    exact absurd hb.1 (by decide)
  have hup : (differ (elements base) (elements target)).1.head? ≠ some dotdot := by
    intro hhead
    obtain ⟨front, hfront, _⟩ := differ_append (elements base) (elements target)
    have hmem : dotdot ∈ elements base := by
      rw [hfront]
      exact List.mem_append_right front (List.mem_of_mem_head? hhead)
    exact (proper_elements hb hmem).2.2 rfl
  unfold rel
  simp only [hb.2, ht.2, if_neg hne, if_neg hdot, hb.1, ht.1, ne_eq, not_true, if_false,
    names_canonical hb, names_canonical ht, if_neg hup]

theorem isAbs_ups (es : List Name) (hes : ∀ e ∈ es, e ≠ [] ∧ '/' ∉ e) :
    isAbs (String.ofList (['/'].intercalate es)) = false := by
  rw [Bool.eq_false_iff, ne_eq, isAbs_iff]
  exact head_intercalate hes

/-- A path that leads up begins with the name for that, alone or with more behind it. -/
theorem leads_up {es : List Name} (hes : es ≠ []) (hslash : ∀ e ∈ es, '/' ∉ e) :
    (String.ofList (['/'].intercalate es) = ".." ∨
      hasPrefix (String.ofList (['/'].intercalate es)) "../" = true) ↔ es.head? = some dotdot := by
  have hsplit := split_intercalate hes hslash
  have hup : "..".toList.splitOn '/' = [dotdot] := by decide
  constructor
  · rintro (heq | hfront)
    · rw [← String.toList_inj, String.toList_ofList] at heq
      rw [← hsplit, heq, hup]
      rfl
    · obtain ⟨rest, hrest⟩ := of_decide_eq_true hfront
      have htext : ['/'].intercalate es = dotdot ++ '/' :: rest := by
        simpa [dotdot] using hrest.symm
      rw [← hsplit, htext, List.splitOn_append_cons_self_of_not_mem (by decide)]
      rfl
  · intro hhead
    obtain ⟨rest, rfl⟩ := List.head?_eq_some_iff.mp hhead
    cases rest with
    | nil => exact Or.inl (by decide)
    | cons e rest =>
      right
      simp [hasPrefix, List.intercalate_cons_cons, dotdot]

end Relative

end RivicQ.Lib.FilePaths
