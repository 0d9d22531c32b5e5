import RivicQ.Discovery.Manifests

namespace RivicQ.Properties.CargoLocks

open RivicQ.Lib.GoStrings RivicQ.Lib.Fields RivicQ.Discovery.Manifests

section Lines

variable {l : String} {n v : String} {ls : List String} {c : Char} {s t : List Char}

theorem dropWhile_trim {p : Char → Bool} (hc : p c = true) (s : List Char) :
    ((c :: (s ++ [c])).dropWhile p).rdropWhile p = (s.dropWhile p).rdropWhile p := by
  rw [List.dropWhile_cons_of_pos hc, List.dropWhile_append]
  split_ifs with hs
  · rw [List.isEmpty_iff.mp hs, List.dropWhile_cons_of_pos hc]
    rfl
  · rw [List.rdropWhile_concat_pos _ _ _ hc]

/-- A value without the blanks at its ends. -/
def clean (s : String) : String := trim s ['\"', ' ']

/-- The line of a field with a value in quotes. -/
def quoted (field s : String) : String := field ++ "\"" ++ s ++ "\""

theorem toList_quoted (field s : String) :
    (quoted field s).toList = field.toList ++ '\"' :: (s.toList ++ ['\"']) := by
  have hquote : "\"".toList = ['\"'] := rfl
  rw [quoted, String.toList_append, String.toList_append, String.toList_append, hquote]
  simp

theorem cargoValue_quoted (field s : String) : cargoValue (quoted field s) field = clean s := by
  have hquote : "\"".toList = ['\"'] := rfl
  rw [cargoValue, quoted, String.append_assoc, String.append_assoc, trimPrefix_append, clean, trim,
    trim, String.toList_append, String.toList_append, hquote, List.singleton_append,
    dropWhile_trim (by decide)]

/-- A text is not trimmed where it has a rune at each end. -/
theorem trimRunes_bounded {d : Char} (hc : isSpace c = false) (hd : isSpace d = false) :
    trimRunes (c :: (s ++ [d])) = c :: (s ++ [d]) := by
  rw [trimRunes, List.dropWhile_cons_of_neg (by simp [hc]), ← List.cons_append,
    List.rdropWhile_concat_neg _ _ _ (by simp [hd])]

theorem trimSpace_quoted {field : String} (hfield : field.toList = c :: t) (hc : isSpace c = false)
    (s : String) : trimSpace (quoted field s) = quoted field s := by
  have hlist : (quoted field s).toList = c :: ((t ++ '\"' :: s.toList) ++ ['\"']) := by
    rw [toList_quoted, hfield]
    simp
  rw [trimSpace, hlist, trimRunes_bounded hc (by decide), ← hlist, String.ofList_toList]

theorem head_quoted {field : String} (hfield : field.toList = c :: t) (s : String) :
    (quoted field s).toList.head? = some c := by
  rw [toList_quoted, hfield]
  rfl

/-- What a trimmed line begins with. -/
theorem head_trimSpace (hb : ∀ d ∈ s, isSpace d = true) (hc : isSpace c = false)
    (hl : l.toList = s ++ c :: t) : (trimSpace l).toList.head? = some c := by
  obtain ⟨t', -, hdrop⟩ := rdropWhile_append_cons hc [] t
  rw [List.nil_append, List.nil_append] at hdrop
  rw [trimSpace, String.toList_ofList, trimRunes, hl, dropWhile_blank hb hc, hdrop]
  rfl

/-- A line that is no field and ends no section. -/
structure Silent (l : String) : Prop where
  name : hasPrefix (trimSpace l) "name = " = false
  version : hasPrefix (trimSpace l) "version = " = false
  bracket : hasPrefix (trimSpace l) "[" = false

theorem not_hasPrefix {x y : String} {d : Char} (hx : x.toList.head? = some c)
    (hy : y.toList = d :: t) (hne : d ≠ c) : hasPrefix x y = false := by
  refine decide_eq_false fun hprefix => hne ?_
  rw [hy] at hprefix
  obtain ⟨w, hw⟩ := hprefix
  rw [← hw] at hx
  exact Option.some.inj hx

/-- A line is silent if it begins otherwise, after blanks. -/
theorem silent_of_head (hb : ∀ d ∈ s, isSpace d = true) (hc : isSpace c = false)
    (hl : l.toList = s ++ c :: t) (hname : c ≠ 'n') (hversion : c ≠ 'v') (hbracket : c ≠ '[') :
    Silent l where
  name := not_hasPrefix (head_trimSpace hb hc hl) rfl hname.symm
  version := not_hasPrefix (head_trimSpace hb hc hl) rfl hversion.symm
  bracket := not_hasPrefix (head_trimSpace hb hc hl) rfl hbracket.symm

theorem silent_quoted {field : String} (hfield : field.toList = c :: t) (hc : isSpace c = false)
    (hname : c ≠ 'n') (hversion : c ≠ 'v') (hbracket : c ≠ '[') (s : String) :
    Silent (quoted field s) := by
  have hlist : (quoted field s).toList = [] ++ c :: (t ++ '\"' :: (s.toList ++ ['\"'])) := by
    rw [toList_quoted, hfield, List.nil_append, List.cons_append]
  exact silent_of_head (fun d hd => by cases hd) hc hlist hname hversion hbracket

theorem silent_empty : Silent "" where
  name := by decide
  version := by decide
  bracket := by decide

theorem cargoFields_silent (h : Silent l) : cargoFields n v (l :: ls) = cargoFields n v ls := by
  simp only [cargoFields, h.name, h.version, h.bracket, Bool.false_and, Bool.false_eq_true,
    if_false]

theorem cargoFields_append {silent : List String} (h : ∀ l ∈ silent, Silent l) :
    cargoFields n v (silent ++ ls) = cargoFields n v ls := by
  induction silent with
  | nil => rfl
  | cons l silent ih =>
    rw [List.cons_append, cargoFields_silent (h l List.mem_cons_self),
      ih fun l' hl' => h l' (List.mem_cons_of_mem l hl')]

theorem cargoFields_header : cargoFields n v ("[[package]]" :: ls) = cargoFields n v ls := by
  have hname : hasPrefix (trimSpace "[[package]]") "name = " = false := by decide
  have hversion : hasPrefix (trimSpace "[[package]]") "version = " = false := by decide
  have hpackage : hasPrefix (trimSpace "[[package]]") "[[" = true := by decide
  simp only [cargoFields, hname, hversion, hpackage, Bool.not_true, Bool.and_false,
    Bool.false_eq_true, if_false]

theorem hasPrefix_quoted (field s : String) : hasPrefix (quoted field s) field = true := by
  rw [quoted, String.append_assoc, String.append_assoc, hasPrefix_append]

theorem cargoFields_name (s : String) :
    cargoFields n v (quoted "name = " s :: ls) = cargoFields (clean s) v ls := by
  have htrim : trimSpace (quoted "name = " s) = quoted "name = " s :=
    trimSpace_quoted rfl (by decide) s
  have hhead : (quoted "name = " s).toList.head? = some 'n' := head_quoted rfl s
  have hversion : hasPrefix (quoted "name = " s) "version = " = false :=
    not_hasPrefix hhead rfl (by decide)
  have hbracket : hasPrefix (quoted "name = " s) "[" = false := not_hasPrefix hhead rfl (by decide)
  simp only [cargoFields, htrim, hasPrefix_quoted, hversion, hbracket, cargoValue_quoted, if_true,
    Bool.false_and, Bool.false_eq_true, if_false]

theorem cargoFields_version (s : String) :
    cargoFields n v (quoted "version = " s :: ls) = cargoFields n (clean s) ls := by
  have htrim : trimSpace (quoted "version = " s) = quoted "version = " s :=
    trimSpace_quoted rfl (by decide) s
  have hhead : (quoted "version = " s).toList.head? = some 'v' := head_quoted rfl s
  have hname : hasPrefix (quoted "version = " s) "name = " = false :=
    not_hasPrefix hhead rfl (by decide)
  have hbracket : hasPrefix (quoted "version = " s) "[" = false :=
    not_hasPrefix hhead rfl (by decide)
  simp only [cargoFields, htrim, hasPrefix_quoted, hname, hbracket, cargoValue_quoted, if_true,
    Bool.false_and, Bool.false_eq_true, if_false]

end Lines

section Packages

/-- A value as the lock file may hold it. -/
abbrev Value := { s : String // '"' ∉ s.toList ∧ '\n' ∉ s.toList }

structure Package where
  name : Value
  version : Value
  source : Option Value := none
  checksum : Option Value := none
  dependencies : List Value := []

namespace Package

/-- What Cargo writes behind the name and the version of a package. -/
def rest (p : Package) : List String :=
  (p.source.map fun s => quoted "source = " s.1).toList ++
    (p.checksum.map fun s => quoted "checksum = " s.1).toList ++
    (if p.dependencies = [] then [] else
      "dependencies = [" :: p.dependencies.map (fun d => " \"" ++ d.1 ++ "\",") ++ ["]"]) ++ [""]

def lines (p : Package) : List String :=
  "[[package]]" :: quoted "name = " p.name.1 :: quoted "version = " p.version.1 :: p.rest

/-- How many lines there are from the header of a package to that of the next. -/
def height (p : Package) : Nat := p.lines.length

def component (p : Package) : SBOMComponent := cargoComponent p.name.1 p.version.1

theorem silent_dependency (d : String) : Silent (" \"" ++ d ++ "\",") := by
  have hlist : (" \"" ++ d ++ "\",").toList = [' '] ++ '\"' :: (d ++ "\",").toList := by
    rw [String.append_assoc, String.toList_append]
    rfl
  have hspace : isSpace ' ' = true := by decide
  have hblank : ∀ c ∈ [' '], isSpace c = true := List.forall_mem_singleton.mpr hspace
  exact silent_of_head hblank (by decide) hlist (by decide) (by decide) (by decide)

theorem silent_rest (p : Package) : ∀ l ∈ p.rest, Silent l := by
  intro l hl
  simp only [rest, List.mem_append, Option.mem_toList, Option.map_eq_some_iff,
    List.mem_singleton] at hl
  obtain ((⟨s, -, rfl⟩ | ⟨s, -, rfl⟩) | hl) | rfl := hl
  · exact silent_quoted rfl (by decide) (by decide) (by decide) (by decide) s.1
  · exact silent_quoted rfl (by decide) (by decide) (by decide) (by decide) s.1
  · split_ifs at hl with hnone
    · cases hl
    · simp only [List.mem_append, List.mem_cons, List.mem_map, List.not_mem_nil, or_false] at hl
      obtain (rfl | ⟨d, -, rfl⟩) | rfl := hl
      · exact ⟨by decide, by decide, by decide⟩
      · exact silent_dependency d.1
      · exact ⟨by decide, by decide, by decide⟩
  · exact silent_empty

end Package

/-- The last package whose header is followed by a line of a certain number within some lines. -/
def lastWithin (number : Nat) : Nat → List Package → Option Package
  | _, [] => none
  | room, p :: ps =>
    if number < room then some ((lastWithin number (room - p.height) ps).getD p) else none

theorem lastWithin_of_le {number room : Nat} (h : room ≤ number) (ps : List Package) :
    lastWithin number room ps = none := by
  cases ps with
  | nil => rfl
  | cons p ps => exact if_neg (Nat.not_lt.mpr h)

theorem lastWithin_cons {number room : Nat} (h : number < room) (p : Package) (ps : List Package) :
    lastWithin number room (p :: ps) =
      some ((lastWithin number (room - p.height) ps).getD p) := if_pos h

/-- Some lines of a lock file give the last name and the last version among them. -/
theorem cargoFields_take (n v : String) (room : Nat) (ps : List Package) :
    cargoFields n v ((ps.flatMap Package.lines).take room) =
      (((lastWithin 1 room ps).map fun p => clean p.name.1).getD n,
        ((lastWithin 2 room ps).map fun p => clean p.version.1).getD v) := by
  induction ps generalizing n v room with
  | nil => rw [List.flatMap_nil, List.take_nil]; rfl
  | cons p ps ih =>
    rw [List.flatMap_cons, Package.lines]
    simp only [List.cons_append]
    -- the lines may end before the name, behind it, behind the version or further on
    obtain _ | _ | _ | room := room
    · rfl
    · rw [List.take_succ_cons, List.take_zero, cargoFields_header]
      rfl
    · have hheight : 2 - p.height = 0 := by
        rw [Package.height, Package.lines, List.length_cons, List.length_cons, List.length_cons]
        omega
      rw [List.take_succ_cons, List.take_succ_cons, List.take_zero, cargoFields_header,
        cargoFields_name, lastWithin_cons (by decide), hheight, lastWithin_of_le (Nat.zero_le 1),
        lastWithin_of_le (Nat.le_refl 2)]
      rfl
    · have hheight : room + 3 - p.height = room - p.rest.length := by
        rw [Package.height, Package.lines, List.length_cons, List.length_cons, List.length_cons]
        omega
      have hsilent : ∀ l ∈ p.rest.take room, Silent l := fun l hl =>
        p.silent_rest l (List.mem_of_mem_take hl)
      rw [List.take_succ_cons, List.take_succ_cons, List.take_succ_cons, cargoFields_header,
        cargoFields_name, cargoFields_version, List.take_append, cargoFields_append hsilent, ih,
        lastWithin_cons (by omega), lastWithin_cons (by omega), hheight]
      cases lastWithin 1 (room - p.rest.length) ps <;>
        cases lastWithin 2 (room - p.rest.length) ps <;> rfl

theorem parseCargoLines_skip {l : String} {ls : List String}
    (h : hasPrefix (trimSpace l) "[[package]]" = false) :
    parseCargoLines (l :: ls) = parseCargoLines ls := by
  rw [parseCargoLines, if_neg (by rw [h]; exact Bool.false_ne_true)]

theorem parseCargoLines_append {skipped ls : List String}
    (h : ∀ l ∈ skipped, hasPrefix (trimSpace l) "[[package]]" = false) :
    parseCargoLines (skipped ++ ls) = parseCargoLines ls := by
  induction skipped with
  | nil => rfl
  | cons l skipped ih =>
    rw [List.cons_append, parseCargoLines_skip (h l List.mem_cons_self),
      ih fun l' hl' => h l' (List.mem_cons_of_mem l hl')]

theorem not_header {x : String} (h : hasPrefix x "[" = false) :
    hasPrefix x "[[package]]" = false := by
  refine decide_eq_false fun hprefix => of_decide_eq_false h ?_
  exact List.IsPrefix.trans ⟨"[package]]".toList, rfl⟩ hprefix

/-- What stands behind the header of a package has no header. -/
theorem not_header_tail (p : Package) :
    ∀ l ∈ p.lines.tail, hasPrefix (trimSpace l) "[[package]]" = false := by
  intro l hl
  apply not_header
  rw [Package.lines, List.tail_cons, List.mem_cons, List.mem_cons] at hl
  obtain rfl | rfl | hl := hl
  · rw [@trimSpace_quoted 'n' _ "name = " rfl (by decide)]
    exact not_hasPrefix (head_quoted rfl _) rfl (by decide)
  · rw [@trimSpace_quoted 'v' _ "version = " rfl (by decide)]
    exact not_hasPrefix (head_quoted rfl _) rfl (by decide)
  · exact (p.silent_rest l hl).bracket

/-- What is read for the package at the head of a list. -/
def readFor (ps : List Package) : Option SBOMComponent :=
  let name := ((lastWithin 1 10 ps).map fun p => clean p.name.1).getD ""
  let version := ((lastWithin 2 10 ps).map fun p => clean p.version.1).getD ""
  if name ≠ "" then some (cargoComponent name version) else none

theorem parseCargoLines_cons (p : Package) (ps : List Package) :
    parseCargoLines ((p :: ps).flatMap Package.lines) =
      (readFor (p :: ps)).toList ++ parseCargoLines (ps.flatMap Package.lines) := by
  have htrim : hasPrefix (trimSpace "[[package]]") "[[package]]" = true := by decide
  have hlines : (p :: ps).flatMap Package.lines =
      "[[package]]" :: (p.lines.tail ++ ps.flatMap Package.lines) := rfl
  -- the header itself gives nothing, so that the look-ahead is the first ten lines
  have hfields : cargoFields "" "" ((p.lines.tail ++ ps.flatMap Package.lines).take 9) =
      cargoFields "" "" (((p :: ps).flatMap Package.lines).take 10) := by
    rw [hlines, List.take_succ_cons, cargoFields_header]
  rw [hlines, parseCargoLines, if_pos htrim, hfields, cargoFields_take,
    parseCargoLines_append (not_header_tail p), readFor]
  generalize ((lastWithin 1 10 (p :: ps)).map fun p => clean p.name.1).getD "" = name
  by_cases hname : name = ""
  · rw [if_neg (not_not_intro hname), if_neg (not_not_intro hname)]
    rfl
  · rw [if_pos hname, if_pos hname]
    rfl

theorem length_parseCargoLines (ps : List Package) :
    (parseCargoLines (ps.flatMap Package.lines)).length ≤ ps.length := by
  induction ps with
  | nil => exact Nat.le_refl 0
  | cons p ps ih =>
    have hone : (readFor (p :: ps)).toList.length ≤ 1 := by cases readFor (p :: ps) <;> simp
    rw [parseCargoLines_cons, List.length_append, List.length_cons]
    omega

theorem cargoComponent_inj {n n' v v' : String} :
    cargoComponent n v = cargoComponent n' v' ↔ n = n' ∧ v = v' := by
  constructor
  · intro h
    exact ⟨congrArg SBOMComponent.name h, congrArg SBOMComponent.version h⟩
  · rintro ⟨rfl, rfl⟩
    rfl

/-- The packages whose name and whose version come last within nine lines of the header of the first
are called like it, and it has a name. -/
structure Own (p : Package) (ps : List Package) : Prop where
  name : ∀ q ∈ lastWithin 1 10 (p :: ps), clean q.name.1 = p.name.1
  version : ∀ q ∈ lastWithin 2 10 (p :: ps), clean q.version.1 = p.version.1
  named : p.name.1 ≠ ""

theorem readFor_iff {p : Package} {ps : List Package} :
    readFor (p :: ps) = some p.component ↔ Own p ps := by
  rw [readFor, lastWithin_cons (by decide), lastWithin_cons (by decide), Option.map_some,
    Option.map_some, Option.getD_some, Option.getD_some]
  generalize hname : (lastWithin 1 (10 - p.height) ps).getD p = q
  generalize hversion : (lastWithin 2 (10 - p.height) ps).getD p = r
  have hown : Own p ps ↔
      clean q.name.1 = p.name.1 ∧ clean r.version.1 = p.version.1 ∧ p.name.1 ≠ "" := by
    have hq := lastWithin_cons (show 1 < 10 by decide) p ps
    have hr := lastWithin_cons (show 2 < 10 by decide) p ps
    rw [hname] at hq
    rw [hversion] at hr
    constructor
    · exact fun h => ⟨h.name q hq, h.version r hr, h.named⟩
    · rintro ⟨hcleanName, hcleanVersion, hne⟩
      refine ⟨fun q' hq' => ?_, fun r' hr' => ?_, hne⟩
      · obtain rfl := Option.some.inj (hq.symm.trans hq')
        exact hcleanName
      · obtain rfl := Option.some.inj (hr.symm.trans hr')
        exact hcleanVersion
  rw [hown]
  by_cases hne : clean q.name.1 = ""
  · rw [if_neg (not_not_intro hne)]
    refine iff_of_false (fun h => by cases h) fun h => h.2.2 (h.1.symm.trans hne)
  · rw [if_pos hne, Option.some.injEq, Package.component, cargoComponent_inj]
    exact ⟨fun h => ⟨h.1, h.2, h.1 ▸ hne⟩, fun h => ⟨h.1, h.2.1⟩⟩

/-- Every package of a list is read as what it is. -/
def Readable : List Package → Prop
  | [] => True
  | p :: ps => Own p ps ∧ Readable ps

theorem parseCargoLines_iff (ps : List Package) :
    parseCargoLines (ps.flatMap Package.lines) = ps.map Package.component ↔ Readable ps := by
  induction ps with
  | nil => exact iff_of_true rfl trivial
  | cons p ps ih =>
    rw [parseCargoLines_cons, List.map_cons, Readable, ← ih, ← readFor_iff]
    have hlength := length_parseCargoLines ps
    cases hread : readFor (p :: ps) with
    | none =>
      refine iff_of_false (fun h => ?_) fun h => by cases h.1
      have hlengths := congrArg List.length h
      simp at hlengths
      omega
    | some c => simp

def preamble : List String :=
  ["# This file is automatically @generated by Cargo.",
    "# It is not intended for manual editing.", "version = 3", ""]

/-- A lock file, as Cargo lays it out. -/
def cargoLock (ps : List Package) : String :=
  String.ofList (['\n'].intercalate ((preamble ++ ps.flatMap Package.lines).map String.toList))

theorem newline_not_quoted {field : String} (hfield : '\n' ∉ field.toList) (s : Value) :
    '\n' ∉ (quoted field s.1).toList := by
  have hquote : '\n' ≠ '\"' := by decide
  simp [toList_quoted, hfield, s.2.2, hquote]

theorem newline_not_rest (p : Package) : ∀ l ∈ p.rest, '\n' ∉ l.toList := by
  intro l hl
  simp only [Package.rest, List.mem_append, Option.mem_toList, Option.map_eq_some_iff,
    List.mem_singleton] at hl
  obtain ((⟨s, -, rfl⟩ | ⟨s, -, rfl⟩) | hl) | rfl := hl
  · exact newline_not_quoted (by decide) s
  · exact newline_not_quoted (by decide) s
  · split_ifs at hl with hnone
    · cases hl
    · simp only [List.mem_append, List.mem_cons, List.mem_map, List.not_mem_nil, or_false] at hl
      obtain (rfl | ⟨d, -, rfl⟩) | rfl := hl
      · decide
      · rw [String.toList_append, String.toList_append, List.mem_append, List.mem_append, not_or,
          not_or]
        exact ⟨⟨by decide, d.2.2⟩, by decide⟩
      · decide
  · decide

theorem newline_not_lines (p : Package) : ∀ l ∈ p.lines, '\n' ∉ l.toList := by
  intro l hl
  rw [Package.lines, List.mem_cons, List.mem_cons, List.mem_cons] at hl
  obtain rfl | rfl | rfl | hl := hl
  · decide
  · exact newline_not_quoted (by decide) p.name
  · exact newline_not_quoted (by decide) p.version
  · exact newline_not_rest p l hl

theorem splitLines_cargoLock (ps : List Package) :
    splitLines (cargoLock ps) = preamble ++ ps.flatMap Package.lines := by
  rw [splitLines, cargoLock, String.toList_ofList, List.splitOn_intercalate, List.map_map]
  · exact (List.map_congr_left fun l _ => String.ofList_toList).trans (List.map_id _)
  · intro s hs
    obtain ⟨l, hl, rfl⟩ := List.mem_map.mp hs
    obtain hl | hl := List.mem_append.mp hl
    · have hpreamble : ∀ l ∈ preamble, '\n' ∉ l.toList := by decide
      exact hpreamble l hl
    · obtain ⟨p, -, hp⟩ := List.mem_flatMap.mp hl
      exact newline_not_lines p l hp
  · exact List.cons_ne_nil _ _

theorem parseCargoLock_cargoLock (ps : List Package) :
    parseCargoLock (cargoLock ps) = parseCargoLines (ps.flatMap Package.lines) := by
  rw [parseCargoLock, splitLines_cargoLock, parseCargoLines_append]
  decide

/-- A lock file is read back if within nine lines of each header no name and no version but its own
comes last, and only then. -/
theorem round_trip_iff (ps : List Package) :
    parseCargoLock (cargoLock ps) = ps.map Package.component ↔ Readable ps := by
  rw [parseCargoLock_cargoLock, parseCargoLines_iff]

/-- Two packages of a registry that depend on nothing. -/
def short : List Package :=
  [{ name := ⟨"adler", by decide⟩, version := ⟨"1.0.2", by decide⟩
     source := some ⟨"registry+crates.io-index", by decide⟩
     checksum := some ⟨"f26201604c87b1e01bd3d98f8d5d9a8fcbb815e8cedb41ffccbeb4bf593a35fe", by decide⟩ },
    { name := ⟨"ring", by decide⟩, version := ⟨"0.16.20", by decide⟩
      source := some ⟨"registry+crates.io-index", by decide⟩
      checksum := some ⟨"3053cf52e236a3ed746dfc745aa9cacf1b791d846bdaf412f60a8d7d6e17c8fc", by decide⟩ }]

/-- The first takes the name and the version of the second. -/
theorem short_reads_ahead :
    parseCargoLock (cargoLock short) =
      [cargoComponent "ring" "0.16.20", cargoComponent "ring" "0.16.20"] ∧
    short.map Package.component =
      [cargoComponent "adler" "1.0.2", cargoComponent "ring" "0.16.20"] := by
  rw [parseCargoLock_cargoLock]
  decide

end Packages

end RivicQ.Properties.CargoLocks
