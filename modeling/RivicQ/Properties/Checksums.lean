import RivicQ.Database.NormalForms

namespace RivicQ.Properties.Checksums

open RivicQ.Lib.GoStrings RivicQ.Database.Migrate RivicQ.Database.NormalForms

variable {m : Mode} {b b' : Bool} {r : Char} {s p q t x y : List Char}

section Trimming

/-- There is nothing but white space, of any kind. -/
def Void (u : List Char) : Prop := ∀ c ∈ u, isSpace c = true

theorem dropWhile_front (h : ¬ Void x) :
    (x ++ y).dropWhile isSpace = x.dropWhile isSpace ++ y := by
  rw [List.dropWhile_append, if_neg]
  rw [List.isEmpty_iff, List.dropWhile_eq_nil_iff]
  exact h

theorem rdropWhile_back (h : ¬ Void y) :
    (x ++ y).rdropWhile isSpace = x ++ y.rdropWhile isSpace := by
  have hreverse : ¬ Void y.reverse := fun hvoid => h fun c hc => hvoid c (List.mem_reverse.mpr hc)
  rw [List.rdropWhile, List.reverse_append, dropWhile_front hreverse, List.reverse_append,
    List.reverse_reverse]
  rfl

theorem rdropWhile_void (h : Void y) : (x ++ y).rdropWhile isSpace = x.rdropWhile isSpace := by
  have hreverse : ∀ c ∈ y.reverse, isSpace c = true := fun c hc => h c (List.mem_reverse.mp hc)
  rw [List.rdropWhile, List.reverse_append, List.dropWhile_append_of_pos hreverse]
  rfl

theorem trimRunes_front (h : Void x) : trimRunes (x ++ y) = trimRunes y := by
  rw [trimRunes, List.dropWhile_append_of_pos h]
  rfl

theorem trimRunes_back (h : Void y) : trimRunes (x ++ y) = trimRunes x := by
  by_cases hx : Void x
  · have hvoid : Void (x ++ y) := fun c hc => (List.mem_append.mp hc).elim (hx c) (h c)
    rw [trimRunes, trimRunes, List.dropWhile_eq_nil_iff.mpr hvoid,
      List.dropWhile_eq_nil_iff.mpr hx]
  · rw [trimRunes, dropWhile_front hx, rdropWhile_void h]
    rfl

/-- Nothing is trimmed between two texts that are seen. -/
theorem trimRunes_between (hx : ¬ Void x) (hy : ¬ Void y) :
    trimRunes (x ++ t ++ y) = x.dropWhile isSpace ++ t ++ y.rdropWhile isSpace := by
  rw [trimRunes, List.append_assoc, dropWhile_front hx, ← List.append_assoc, rdropWhile_back hy]

theorem trimRunes_spec (u : List Char) : ∃ x y, Void x ∧ Void y ∧ u = x ++ trimRunes u ++ y := by
  refine ⟨u.takeWhile isSpace, (u.dropWhile isSpace).rtakeWhile isSpace, ?_, ?_, ?_⟩
  · exact fun c hc => List.mem_takeWhile_imp hc
  · exact fun c hc => List.mem_rtakeWhile_imp hc
  · rw [List.append_assoc, trimRunes, List.rdropWhile_append_rtakeWhile,
      List.takeWhile_append_dropWhile]

theorem count_void {c : Char} (hc : isSpace c = false) (h : Void x) : x.count c = 0 :=
  List.count_eq_zero_of_not_mem fun hmem => Bool.false_ne_true (hc.symm.trans (h c hmem))

theorem count_trimRunes {c : Char} (hc : isSpace c = false) (u : List Char) :
    (trimRunes u).count c = u.count c := by
  obtain ⟨x, y, hx, hy, hu⟩ := trimRunes_spec u
  conv_rhs => rw [hu, List.count_append, List.count_append, count_void hc hx, count_void hc hy]
  omega

theorem void_spaces (n : Nat) : Void (List.replicate n ' ') :=
  fun _ hc => (List.mem_replicate.mp hc).2 ▸ rfl

/-- How many spaces there are in a text is seen unless they stand at an end of it. -/
theorem trimRunes_spaces_iff {j k : Nat} :
    trimRunes (x ++ List.replicate j ' ' ++ y) = trimRunes (x ++ List.replicate k ' ' ++ y) ↔
      j = k ∨ Void x ∨ Void y := by
  by_cases hx : Void x
  · have htrim : ∀ n, trimRunes (x ++ List.replicate n ' ' ++ y) = trimRunes y := by
      intro n
      rw [List.append_assoc, trimRunes_front hx, trimRunes_front (void_spaces n)]
    exact iff_of_true ((htrim j).trans (htrim k).symm) (.inr (.inl hx))
  by_cases hy : Void y
  · have htrim : ∀ n, trimRunes (x ++ List.replicate n ' ' ++ y) = trimRunes x := by
      intro n
      rw [trimRunes_back hy, trimRunes_back (void_spaces n)]
    exact iff_of_true ((htrim j).trans (htrim k).symm) (.inr (.inr hy))
  rw [trimRunes_between hx hy, trimRunes_between hx hy]
  constructor
  · intro h
    have hlength := congrArg List.length h
    simp only [List.length_append, List.length_replicate] at hlength
    exact .inl (by omega)
  · rintro (rfl | h | h)
    · rfl
    · exact absurd h hx
    · exact absurd h hy

end Trimming

section Mixes

/-- White space with so many line comments in it. -/
inductive Mix : Nat → List Char → Prop where
  | nil : Mix 0 []
  | blank {n : Nat} {r : Char} {w : List Char} (hr : Blank r) (h : Mix n w) : Mix n (r :: w)
  | comment {n : Nat} {text w : List Char} (ht : '\n' ∉ text) (h : Mix n w) :
      Mix (n + 1) ('-' :: '-' :: (text ++ '\n' :: w))

/-- How many spaces are written for a mix. -/
def spaces (lastSpace : Bool) (n : Nat) (w : List Char) : Nat :=
  if lastSpace = false ∧ w.head? ≠ some '-' then n + 1 else n

variable {n : Nat} {text w w' : List Char}

theorem normalizeFrom_text (h : '\n' ∉ text) :
    normalizeFrom .lineComment b (text ++ '\n' :: s) = ' ' :: normalizeFrom .plain true s := by
  induction text with
  | nil => rfl
  | cons r text ih =>
    obtain ⟨hr, htext⟩ := List.ne_and_not_mem_of_not_mem_cons h
    rw [List.cons_append, normalizeFrom_line hr.symm]
    exact ih htext

theorem normalizeFrom_mix_true (h : Mix n w) : normalizeFrom .plain true (w ++ q) =
    List.replicate n ' ' ++ normalizeFrom .plain true q := by
  induction h with
  | nil => rfl
  | blank hr _ ih =>
    rw [List.cons_append, normalizeFrom_blank hr]
    exact ih
  | @comment n text w ht _ ih =>
    have hread : normalizeFrom .plain true ('-' :: '-' :: (text ++ '\n' :: w) ++ q) =
        normalizeFrom .lineComment true (text ++ '\n' :: (w ++ q)) := by
      rw [List.cons_append, List.cons_append, List.append_assoc]
      rfl
    rw [hread, normalizeFrom_text ht, ih]
    rfl

theorem head_mix (h : Mix n w) (hw : w ≠ []) :
    w.head? = some '-' ∨ ∃ r w', w = r :: w' ∧ Blank r := by
  cases h with
  | nil => exact absurd rfl hw
  | blank hr _ => exact .inr ⟨_, _, rfl, hr⟩
  | comment _ _ => exact .inl rfl

theorem normalizeFrom_mix (h : Mix n w) (hw : w ≠ []) : normalizeFrom .plain b (w ++ q) =
    List.replicate (spaces b n w) ' ' ++ normalizeFrom .plain true q := by
  cases b with
  | true => exact normalizeFrom_mix_true h
  | false =>
    have hflag := normalizeFrom_mix_true (q := q) h
    cases h with
    | nil => exact absurd rfl hw
    | blank hr h =>
      have hspaces : ∀ {r : Char} {w : List Char}, Blank r → spaces false n (r :: w) = n + 1 := by
        intro r w hr
        refine if_pos ⟨rfl, fun hhead => ?_⟩
        obtain rfl := Option.some.inj hhead
        exact absurd hr (by decide)
      rw [List.cons_append, normalizeFrom_blank hr] at hflag ⊢
      rw [hspaces hr]
      exact congrArg (' ' :: ·) hflag
    | @comment n text w ht h =>
      have hread : ∀ b, normalizeFrom .plain b ('-' :: '-' :: (text ++ '\n' :: w) ++ q) =
          normalizeFrom .lineComment b (text ++ '\n' :: (w ++ q)) := by
        intro b
        rw [List.cons_append, List.cons_append, List.append_assoc]
        rfl
      rw [hread, normalizeFrom_text ht] at hflag ⊢
      exact hflag

end Mixes

section Reformatting

/-- A text that ends outside comments and quotes. -/
def Outside (p : List Char) : Prop := (scan .plain false p).1 = .plain

/-- A comment can begin behind a text that ends outside comments and quotes. -/
def Opens (p : List Char) : Prop := Outside p ∧ Outside (p ++ ['-'])

/-- What is written for a text, and whether a space was written last. -/
def written (p : List Char) : List Char := normalizeFrom .plain false p

def spaced (p : List Char) : Bool := (scan .plain false p).2

/-- The SQL that white space stands in. -/
def sql (p w q : List Char) : String := String.ofList (p ++ w ++ q)

/-- Neither the statement nor the checksum of a migration with it changes. -/
def Unchanged (stmt stmt' : String) : Prop :=
  normalizeSQL stmt = normalizeSQL stmt' ∧
    ∀ (sha256Hex : String → String) (id name : String) (before after : List String),
      checksumMigration sha256Hex ⟨id, name, before ++ stmt :: after⟩ =
        checksumMigration sha256Hex ⟨id, name, before ++ stmt' :: after⟩

/-- The mix is read as such where it stands, and it has no comment, or just one in front of it and
no white space before that, unless nothing is written on one side of it. -/
def Kept (p q w' : List Char) (n : Nat) : Prop :=
  (w'.head? = some '-' → Opens p) ∧
    (n = 0 ∨ (spaced p = false ∧ n = 1 ∧ w'.head? = some '-') ∨ Void (written p) ∨
      Void (normalizeFrom .plain true q))

variable {n : Nat} {w w' : List Char} {stmt stmt' : String}

theorem unchanged_iff : Unchanged stmt stmt' ↔ normalizeSQL stmt = normalizeSQL stmt' := by
  refine ⟨And.left, fun h => ⟨h, fun sha256Hex id name before after => ?_⟩⟩
  simp only [checksumMigration, List.map_append, List.map_cons, h]

theorem normalizeSQL_ofList (s : List Char) :
    normalizeSQL (String.ofList s) = String.ofList (trimRunes (written s)) := by
  rw [normalizeSQL, trimSpace, String.toList_ofList, String.toList_ofList]
  rfl

theorem normalizeSQL_inj : normalizeSQL (String.ofList s) = normalizeSQL (String.ofList t) ↔
    trimRunes (written s) = trimRunes (written t) := by
  rw [normalizeSQL_ofList, normalizeSQL_ofList, String.ofList_inj]

/-- A mix is read after the text before it. -/
theorem written_mix (hp : Outside p) (h : Mix n w) (hw : w ≠ [])
    (hopens : w.head? = some '-' → Opens p) : written (p ++ w ++ q) =
      written p ++ List.replicate (spaces (spaced p) n w) ' ' ++ normalizeFrom .plain true q := by
  have hapart : Apart .plain false p (w ++ q) := by
    obtain hhead | ⟨r, w, rfl, hr⟩ := head_mix h hw
    · intro c hc _
      rw [List.head?_append, hhead] at hc
      obtain rfl := Option.some.inj hc
      exact (hopens hhead).2.trans hp.symm
    · exact apart_of_blank hr
  have hread := (read_append hapart).1
  rw [show (scan .plain false p).1 = .plain from hp, normalizeFrom_mix h hw] at hread
  rw [List.append_assoc, List.append_assoc]
  exact hread

theorem head_run (h : Mix 0 w) : w.head? ≠ some '-' := by
  cases h with
  | nil => exact nofun
  | blank hr _ =>
    intro hhead
    obtain rfl := Option.some.inj hhead
    exact absurd hr (by decide)

theorem spaces_run (h : Mix 0 w) : spaces b 0 w = if b then 0 else 1 := by
  cases b with
  | true => rfl
  | false => exact if_pos ⟨rfl, head_run h⟩

/-- As many spaces are written as for white space exactly if there is no comment, or the only one
comes first and no space before it. -/
theorem spaces_eq_iff (h : Mix n w') : (if b then 0 else 1) = spaces b n w' ↔
    n = 0 ∨ (b = false ∧ n = 1 ∧ w'.head? = some '-') := by
  have hcomment : n = 0 → w'.head? ≠ some '-' := by
    rintro rfl
    exact head_run h
  cases b with
  | true =>
    have hspaces : spaces true n w' = n := if_neg fun h => nomatch h.1
    rw [hspaces]
    simp [eq_comm]
  | false =>
    by_cases hhead : w'.head? = some '-'
    · have hspaces : spaces false n w' = n := if_neg fun h => h.2 hhead
      rw [hspaces]
      have hn : n ≠ 0 := fun h => hcomment h hhead
      simp [hhead, hn, eq_comm]
    · have hspaces : spaces false n w' = n + 1 := if_pos ⟨rfl, hhead⟩
      rw [hspaces]
      simp [hhead]

/-- A text behind which no comment can begin ends in a dash of its own. -/
theorem exists_dash (hp : (scan m b p).1 = .plain) (hdash : (scan m b (p ++ ['-'])).1 ≠ .plain) :
    ∃ p₀, p = p₀ ++ ['-'] ∧ (scan m b p₀).1 = .plain := by
  induction m, b, p using read_induction with
  | nil m b =>
    cases m with
    | plain => exact absurd rfl hdash
    | lineComment => cases hp
    | dollarQuote => cases hp
  | line b r s hr ih =>
    rw [List.cons_append, scan_line hr] at hdash
    rw [scan_line hr] at hp
    obtain ⟨p₀, hs, hp₀⟩ := ih hp hdash
    exact ⟨r :: p₀, congrArg (r :: ·) hs, (congrArg Prod.fst (scan_line hr)).trans hp₀⟩
  | lineEnd b s ih =>
    obtain ⟨p₀, hs, hp₀⟩ := ih hp hdash
    exact ⟨'\n' :: p₀, congrArg ('\n' :: ·) hs, hp₀⟩
  | body b r s hr ih =>
    have happend : r = '$' → (s ++ ['-']).head? ≠ some '$' :=
      fun hdollar => head_append_ne (hr hdollar) fun _ => by decide
    rw [List.cons_append, scan_body happend] at hdash
    rw [scan_body hr] at hp
    obtain ⟨p₀, hs, hp₀⟩ := ih hp hdash
    have hbody : r = '$' → p₀.head? ≠ some '$' :=
      fun hdollar => head_prefix_ne ⟨['-'], hs.symm⟩ (hr hdollar)
    exact ⟨r :: p₀, congrArg (r :: ·) hs, (congrArg Prod.fst (scan_body hbody)).trans hp₀⟩
  | close b s ih =>
    obtain ⟨p₀, hs, hp₀⟩ := ih hp hdash
    exact ⟨'$' :: '$' :: p₀, congrArg ('$' :: '$' :: ·) hs, hp₀⟩
  | comment b s ih =>
    obtain ⟨p₀, hs, hp₀⟩ := ih hp hdash
    exact ⟨'-' :: '-' :: p₀, congrArg ('-' :: '-' :: ·) hs, hp₀⟩
  | quote b s ih =>
    obtain ⟨p₀, hs, hp₀⟩ := ih hp hdash
    exact ⟨'$' :: '$' :: p₀, congrArg ('$' :: '$' :: ·) hs, hp₀⟩
  | blank b r s hr ih =>
    rw [List.cons_append, scan_blank hr] at hdash
    rw [scan_blank hr] at hp
    obtain ⟨p₀, hs, hp₀⟩ := ih hp hdash
    exact ⟨r :: p₀, congrArg (r :: ·) hs, (congrArg Prod.fst (scan_blank hr)).trans hp₀⟩
  | char b r s hr halone ih =>
    by_cases hnext : Alone r (s ++ ['-'])
    · rw [List.cons_append, scan_char hr hnext] at hdash
      rw [scan_char hr halone] at hp
      obtain ⟨p₀, hs, hp₀⟩ := ih hp hdash
      have hchar : Alone r p₀ := fun hmark => head_prefix_ne ⟨['-'], hs.symm⟩ (halone hmark)
      exact ⟨r :: p₀, congrArg (r :: ·) hs, (congrArg Prod.fst (scan_char hr hchar)).trans hp₀⟩
    · have hs : s = [] ∧ r = '-' := by
        by_contra hne
        refine hnext (alone_append halone fun hs hmark hhead => hne ⟨hs, ?_⟩)
        exact (Option.some.inj hhead).symm
      obtain ⟨rfl, rfl⟩ := hs
      exact ⟨[], rfl, rfl⟩

/-- A comment that begins with the dash before it takes it away. -/
theorem count_dash (hp : Outside p) (hopens : ¬ Opens p) (hw : Mix 0 w) (hne : w ≠ [])
    (hw' : Mix n w') (hhead : w'.head? = some '-') :
    (written (p ++ w ++ q)).count '-' = (written (p ++ w' ++ q)).count '-' + 1 := by
  have hdash : ¬ Outside (p ++ ['-']) := fun h => hopens ⟨hp, h⟩
  obtain ⟨p₀, rfl, hp₀⟩ := exists_dash hp hdash
  have hwritten : written (p₀ ++ ['-']) = written p₀ ++ ['-'] := by
    have hapart : Apart .plain false p₀ ['-'] := by
      intro c hc _
      obtain rfl := Option.some.inj hc
      exact hp.trans hp₀.symm
    have hread := (read_append hapart).1
    rw [hp₀] at hread
    exact hread
  have hmix : Mix n ('-' :: w') := by
    cases hw' with
    | nil => cases hhead
    | blank hr _ =>
      obtain rfl := Option.some.inj hhead
      exact absurd hr (by decide)
    | comment ht h => exact .comment (List.not_mem_cons_of_ne_of_not_mem (by decide) ht) h
  have hcount : ∀ k, (List.replicate k ' ').count '-' = 0 := fun k => count_void rfl (void_spaces k)
  have hjoin : p₀ ++ ['-'] ++ w' = p₀ ++ '-' :: w' := by
    rw [List.append_assoc]
    rfl
  rw [written_mix hp hw hne fun h => absurd h (head_run hw), hwritten, hjoin,
    written_mix hp₀ hmix (List.cons_ne_nil _ _) fun _ => ⟨hp₀, hp⟩]
  simp only [List.count_append, hcount]
  rw [List.count_singleton_self]
  omega

/-- White space can be replaced by a mix exactly if the mix is kept. -/
theorem unchanged_iff_kept (hp : Outside p) (hw : Mix 0 w) (hne : w ≠ []) (hw' : Mix n w')
    (hne' : w' ≠ []) : Unchanged (sql p w q) (sql p w' q) ↔ Kept p q w' n := by
  rw [unchanged_iff, sql, sql, normalizeSQL_inj]
  by_cases hopens : w'.head? = some '-' → Opens p
  · rw [written_mix hp hw hne fun h => absurd h (head_run hw), written_mix hp hw' hne' hopens,
      trimRunes_spaces_iff, spaces_run hw, spaces_eq_iff hw', Kept, and_iff_right hopens, or_assoc]
  · refine iff_of_false (fun h => ?_) fun h => hopens h.1
    obtain ⟨hhead, hopens⟩ := Classical.not_imp.mp hopens
    have hcount := count_dash (q := q) hp hopens hw hne hw' hhead
    rw [← count_trimRunes rfl, h, count_trimRunes rfl] at hcount
    omega

end Reformatting

section Idempotence

/-- No comment ends where a space was written last, unless that space is at the front or nothing is
written behind the comment. -/
def Settled (s : List Char) : Prop :=
  ∀ p text q, s = p ++ '-' :: '-' :: (text ++ '\n' :: q) → '\n' ∉ text → Opens p →
    spaced ((written p).dropWhile isSpace) = false ∨ Void (normalizeFrom .plain true q)

theorem scan_void (h : Void x) (b : Bool) :
    ∃ b', ∀ t, scan .plain b (x ++ t) = scan .plain b' t := by
  induction x generalizing b with
  | nil => exact ⟨b, fun _ => rfl⟩
  | cons c x ih =>
    obtain ⟨hc, hx⟩ := List.forall_mem_cons.mp h
    by_cases hblank : Blank c
    · obtain ⟨b', hb'⟩ := ih hx true
      exact ⟨b', fun t => (scan_blank hblank).trans (hb' t)⟩
    · have halone : ∀ t, Alone c t := by
        rintro t (rfl | rfl)
        · exact absurd hc (by decide)
        · exact absurd hc (by decide)
      obtain ⟨b', hb'⟩ := ih hx false
      exact ⟨b', fun t => (scan_char hblank (halone _)).trans (hb' t)⟩

/-- A text is read in the same mode behind white space. -/
theorem scan_behind (hx : Void x) : (scan .plain false t).1 = (scan .plain false (x ++ t)).1 ∧
    ((scan .plain false t).2 = true → (scan .plain false (x ++ t)).2 = true) := by
  obtain ⟨b', hb'⟩ := scan_void hx false
  rw [hb']
  exact scan_mono .plain b' t false fun h => absurd h Bool.false_ne_true

theorem scan_written (p : List Char) :
    (scan .plain false (written p)).1 = shadow (scan .plain false p).1 ∧
      ((scan .plain false (written p)).2 = true → (scan .plain false p).2 = true) :=
  scan_shadow .plain false p false id

theorem origin_of_written {r : Char} (hr : r ≠ '$') (h : written s = x ++ r :: y) :
    Origin .plain false s x r y :=
  (exists_origin .plain false s x y hr h).resolve_left fun hline => nomatch hline.1

theorem clean_infix {u v : List Char} (hu : Void u) (hwritten : written s = u ++ t ++ v) :
    Clean .plain false t := by
  rintro x r y rfl hmode
  by_cases hr : r = '$'
  · subst hr
    exact ⟨fun h => absurd h (by decide), fun h => absurd h (by decide)⟩
  have hsplit : written s = (u ++ x) ++ r :: (y ++ v) := by
    rw [hwritten]
    simp only [List.append_assoc, List.cons_append]
  obtain ⟨p, q, -, -, hp, hwrites⟩ := origin_of_written hr hsplit
  have hplain : shadow (scan .plain false p).1 = .plain := by
    rw [← (scan_written p).1, written, hp, ← (scan_behind hu).1]
    exact hmode
  generalize (scan .plain false p).1 = m at hwrites hplain
  generalize (scan .plain false p).2 = b at hwrites
  generalize hrest : y ++ v = rest at hwrites
  cases hwrites with
  | blank _ => exact ⟨fun _ => rfl, fun h => absurd h (by decide)⟩
  | comment _ => exact ⟨fun _ => rfl, fun h => absurd h (by decide)⟩
  | char hblank halone =>
    refine ⟨fun h => absurd h hblank, fun hdash => ?_⟩
    refine head_prefix_ne (List.prefix_append y v) ?_
    rw [hrest, ← hdash]
    exact alone_written halone (.inl hdash)
  | body _ => cases hplain

theorem clean_trimRunes (s : List Char) : Clean .plain false (trimRunes (written s)) := by
  obtain ⟨u, v, hu, -, hwritten⟩ := trimRunes_spec (written s)
  exact clean_infix hu hwritten

theorem written_comment {text : List Char} (ht : '\n' ∉ text) (hp : Opens p) :
    written (p ++ '-' :: '-' :: (text ++ '\n' :: q)) =
      written p ++ [' '] ++ normalizeFrom .plain true q := by
  have hmix : Mix 1 ('-' :: '-' :: (text ++ ['\n'])) := .comment ht .nil
  have hread := written_mix (q := q) hp.1 hmix (List.cons_ne_nil _ _) fun _ => hp
  have hspaces : spaces (spaced p) 1 ('-' :: '-' :: (text ++ ['\n'])) = 1 :=
    if_neg fun h => h.2 rfl
  rw [hspaces, List.replicate_one] at hread
  simpa only [List.append_assoc, List.cons_append, List.nil_append] using hread

theorem head_trimRunes {c : Char} {u : List Char} (h : trimRunes u = c :: t) :
    isSpace c = false := by
  have hself := dropWhile_rdropWhile isSpace u
  change (trimRunes u).dropWhile isSpace = trimRunes u at hself
  rw [h, List.dropWhile_cons] at hself
  split_ifs at hself with hc
  · have hlength := (List.dropWhile_sublist isSpace (l := t)).length_le
    rw [hself, List.length_cons] at hlength
    omega
  · exact Bool.eq_false_iff.mpr hc

theorem length_trimRunes (u : List Char) : (trimRunes u).length ≤ u.length := by
  obtain ⟨x, y, -, -, hu⟩ := trimRunes_spec u
  have hlength := congrArg List.length hu
  simp only [List.length_append] at hlength
  omega

theorem dropped_of_comment {text : List Char} (ht : '\n' ∉ text) (hp : Opens p)
    (hspaced : spaced ((written p).dropWhile isSpace) = true)
    (hrest : ¬ Void (normalizeFrom .plain true q)) :
    Dropped .plain false (trimRunes (written (p ++ '-' :: '-' :: (text ++ '\n' :: q)))) := by
  have hfront : ¬ Void (written p) := by
    intro hvoid
    rw [List.dropWhile_eq_nil_iff.mpr hvoid] at hspaced
    cases hspaced
  rw [written_comment ht hp, trimRunes_between hfront hrest, List.append_assoc]
  refine ⟨_, _, rfl, Prod.ext ?_ hspaced⟩
  have hvoid : Void ((written p).takeWhile isSpace) := fun c hc => List.mem_takeWhile_imp hc
  have hmode := (scan_behind (t := (written p).dropWhile isSpace) hvoid).1
  rw [List.takeWhile_append_dropWhile, (scan_written p).1, hp.1] at hmode
  exact hmode

theorem not_settled_of_dropped (h : Dropped .plain false (trimRunes (written s))) :
    ¬ Settled s := by
  intro hsettled
  obtain ⟨x, y, ht, hx⟩ := h
  obtain ⟨u, v, hu, hv, hwritten⟩ := trimRunes_spec (written s)
  have hsplit : written s = (u ++ x) ++ ' ' :: (y ++ v) := by
    rw [hwritten, ht]
    simp only [List.append_assoc, List.cons_append]
  obtain ⟨p, q, rfl, hapart, hp, hwrites⟩ := origin_of_written (by decide) hsplit
  have hbehind := scan_behind (t := x) hu
  rw [hx, ← hp] at hbehind
  have hmode : shadow (scan .plain false p).1 = .plain :=
    (scan_written p).1.symm.trans hbehind.1.symm
  have hflag : (scan .plain false p).2 = true := (scan_written p).2 (hbehind.2 rfl)
  generalize hm : (scan .plain false p).1 = m at hwrites hmode
  rw [hflag] at hwrites
  generalize hrest : y ++ v = rest at hwrites
  generalize hspace : ' ' = c at hwrites
  cases hwrites with
  | char hblank _ => exact hblank (.inr (.inr (.inr hspace.symm)))
  | body _ => cases hmode
  | @comment _ text q htext =>
    have hopens : Opens p := ⟨hm, (hapart '-' rfl (.inl rfl)).trans hm⟩
    -- the text before the comment is seen, since it ends in a space and is trimmed
    have hfront : (u ++ x).dropWhile isSpace = x := by
      rw [List.dropWhile_append_of_pos hu]
      cases x with
      | nil => cases hx
      | cons d x => exact List.dropWhile_cons_of_neg (Bool.eq_false_iff.mp (head_trimRunes ht))
    have hback : ¬ Void (' ' :: y) := by
      intro hvoid
      have hself := trimRunes_trimRunes (written (p ++ '-' :: '-' :: (text ++ '\n' :: q)))
      rw [ht, trimRunes_back hvoid] at hself
      have hlength := length_trimRunes x
      rw [hself, List.length_append, List.length_cons] at hlength
      omega
    obtain hspaced | hvoid := hsettled p text q rfl htext hopens
    · rw [show written p = u ++ x from hp, hfront, spaced, hx] at hspaced
      cases hspaced
    · rw [← hrest] at hvoid
      refine hback (List.forall_mem_cons.mpr ⟨by decide, fun d hd => ?_⟩)
      exact hvoid d (List.mem_append_left v hd)

theorem dropped_iff : Dropped .plain false (trimRunes (written s)) ↔ ¬ Settled s := by
  refine ⟨not_settled_of_dropped, fun h => ?_⟩
  simp only [Settled, not_forall, not_or] at h
  obtain ⟨p, text, q, rfl, htext, hopens, hspaced, hrest⟩ := h
  exact dropped_of_comment htext hopens (Bool.ne_false_iff.mp hspaced) hrest

/-- A normal form is its own exactly if no space is written twice in it. -/
theorem idempotent_iff {stmt : String} :
    normalizeSQL (normalizeSQL stmt) = normalizeSQL stmt ↔ Settled stmt.toList := by
  have hform : normalizeSQL stmt = String.ofList (trimRunes (written stmt.toList)) := by
    rw [← normalizeSQL_ofList, String.ofList_toList]
  rw [hform, normalizeSQL_ofList, String.ofList_inj]
  obtain ⟨hself, hdropped⟩ | ⟨hlength, hdropped⟩ :=
    settles_of_clean .plain false _ nofun (clean_trimRunes stmt.toList)
  · refine iff_of_true ?_ (not_not.mp (mt dropped_iff.mpr hdropped))
    rw [written, hself, trimRunes_trimRunes]
  · refine iff_of_false (fun h => ?_) (dropped_iff.mp hdropped)
    have hle := length_trimRunes (written (trimRunes (written stmt.toList)))
    rw [h] at hle
    exact absurd hlength (Nat.not_lt.mpr hle)

end Idempotence

/-- When reformatting leaves a checksum alone, and when normalizing once is enough. -/
theorem normal_forms_iff (p q : List Char) (stmt : String) :
    (Outside p → ∀ w w' n, Mix 0 w → w ≠ [] → Mix n w' → w' ≠ [] →
      (Unchanged (sql p w q) (sql p w' q) ↔ Kept p q w' n)) ∧
    (normalizeSQL (normalizeSQL stmt) = normalizeSQL stmt ↔ Settled stmt.toList) :=
  ⟨fun hp _ _ _ hw hne hw' hne' => unchanged_iff_kept hp hw hne hw' hne', idempotent_iff⟩

/-- A comment after white space leaves a second space. -/
theorem comment_changes_checksum : Mix 0 [' '] ∧ Mix 1 " -- key\n".toList ∧
    ¬ Unchanged (sql "id".toList [' '] "TEXT".toList)
      (sql "id".toList " -- key\n".toList "TEXT".toList) ∧
    normalizeSQL (normalizeSQL "id -- key\nTEXT") ≠ normalizeSQL "id -- key\nTEXT" := by
  have htext : '\n' ∉ " key".toList := by decide
  have hcomment : Mix 1 " -- key\n".toList := .blank (by decide) (.comment htext .nil)
  refine ⟨.blank (by decide) .nil, hcomment, fun h => ?_, ?_⟩
  · exact absurd h.1 (by decide)
  · decide

end RivicQ.Properties.Checksums
