import RivicQ.Discovery.LocalPaths
import RivicQ.Lib.FileTrees

namespace RivicQ.Discovery.Disks

open RivicQ.Lib.GoStrings RivicQ.Lib.FilePaths RivicQ.Lib.FileTrees
open RivicQ.Discovery.LocalPaths

/-- A file system. The kernel follows so many links for one path, no more than
`EvalSymlinks` does. -/
structure Disk where
  root : Entry
  links : Nat
  named : root.Named
  links_le : links ≤ 255

namespace Disk

variable (d : Disk) (wd : Option String)

/-- The names of a path from the root, by way of the working directory. -/
def namesOf (path : String) : Option (List Name) :=
  if path = "" then none
  else if isAbs path then some (path.toList.splitOn '/')
  else wd.map fun w => w.toList.splitOn '/' ++ path.toList.splitOn '/'

/-- Where a path leads to. -/
def locate (path : String) : Option (List Name) :=
  (namesOf wd path).bind (d.root.resolve d.links [])

def stat (path : String) : Option Bool :=
  ((d.locate wd path).bind d.root.find).map (·.isDir)

/-- The entry of a path, which is not followed if it is a link. -/
def lstat (path : String) : Option Entry :=
  match (namesOf wd path).map List.reverse with
  | none => none
  | some [] => none
  | some (n :: front) =>
    if n = [] ∨ n = ['.'] ∨ n = dotdot then (d.locate wd path).bind d.root.find
    else ((d.root.resolve d.links [] front.reverse).bind d.root.find).bind (·.get n)

/-- The location that a file is read from. -/
def readFile (path : String) : Option (List Name) :=
  (d.locate wd path).filter fun loc =>
    match d.root.find loc with
    | some .file => true
    | _ => false

/-- The path without links, for an absolute path. -/
def evalSymlinks (path : String) : Option String :=
  ((namesOf wd path).bind (d.root.resolve 255 [])).map ofElements

end Disk

/-- A machine with its file system. -/
def mount (m : Machine) (d : Disk) : Machine :=
  { m with evalSymlinks := d.evalSymlinks m.getwd, stat := d.stat m.getwd }

variable {d : Disk} {wd : Option String} {path : String} {loc : List Name} {e : Entry} {n : Name}

theorem namesOf_abs (h : isAbs path = true) :
    Disk.namesOf wd path = some (path.toList.splitOn '/') := by
  have hne : path ≠ "" := by
    rintro rfl
    exact absurd h (by decide)
  rw [Disk.namesOf, if_neg hne, if_pos h]

theorem splitOn_canonical (h : Canonical path) (hne : elements path ≠ []) :
    path.toList.splitOn '/' = [] :: elements path := by
  rw [toList_canonical h, split_render hne fun e he => slash_not_mem_elements he]

theorem resolve_nil_cons {root : Entry} {k : Nat} {ns : List Name} :
    root.resolve k loc ([] :: ns) = root.resolve k loc ns := by
  cases k with
  | zero => exact Entry.follow_skip (Or.inl rfl)
  | succ k => exact Entry.follow_skip (Or.inl rfl)

theorem locate_canonical (h : Canonical path) :
    d.locate wd path = d.root.resolve d.links [] (elements path) := by
  rw [Disk.locate, namesOf_abs h.1, Option.bind_some]
  by_cases hnil : elements path = []
  · have hpath : path.toList = ['/'] := by
      rw [toList_canonical h, hnil]
      rfl
    have hsplit : ['/'].splitOn '/' = [[], []] := by decide
    rw [hpath, hsplit, hnil, resolve_nil_cons, resolve_nil_cons]
  · rw [splitOn_canonical h hnil, resolve_nil_cons]

theorem evalSymlinks_of_locate (h : d.locate wd path = some loc) :
    d.evalSymlinks wd path = some (ofElements loc) := by
  obtain ⟨ns, hns, hloc⟩ := Option.bind_eq_some_iff.mp h
  rw [Disk.evalSymlinks, hns, Option.bind_some, Entry.resolve_mono d.links_le hloc]
  rfl

theorem locate_find (h : d.locate wd path = some loc) :
    ∃ e, d.root.find loc = some e ∧ e.Named ∧ ∀ n ∈ loc, Proper n ∧ '/' ∉ n := by
  obtain ⟨ns, _, hloc⟩ := Option.bind_eq_some_iff.mp h
  obtain ⟨e, he⟩ := Option.isSome_iff_exists.mp (Entry.resolve_find rfl hloc)
  exact ⟨e, he, d.named.find he⟩

theorem canonical_evalSymlinks {real : String} (h : d.evalSymlinks wd path = some real) :
    Canonical real := by
  obtain ⟨loc, hloc, rfl⟩ := Option.map_eq_some_iff.mp h
  obtain ⟨ns, _, hloc⟩ := Option.bind_eq_some_iff.mp hloc
  obtain ⟨e, he⟩ := Option.isSome_iff_exists.mp (Entry.resolve_find rfl hloc)
  exact canonical_ofElements (d.named.find he).2

/-- A path, the location of its entry, and the entry; unless this is a link, the path
leads to it. -/
structure Placed (d : Disk) (wd : Option String) (path : String) (loc : List Name) (e : Entry) :
    Prop where
  canonical : Canonical path
  lstat : d.lstat wd path = some e
  find : d.root.find loc = some e
  locate : e.isLink = false → d.locate wd path = some loc

theorem canonical_ne_empty (h : Canonical path) : path ≠ "" := by
  rintro rfl
  exact absurd h.1 (by decide)

theorem lstat_concat {front : List Name} (h : Canonical path) (hn : elements path = front ++ [n]) :
    d.lstat wd path =
      ((d.root.resolve d.links [] front).bind d.root.find).bind (·.get n) := by
  have hproper : Proper n := proper_elements h (hn ▸ List.mem_append_right front (by simp))
  have hskip : ¬ (n = [] ∨ n = ['.'] ∨ n = dotdot) := by
    rintro (h | h | h)
    · exact hproper.1 h
    · exact hproper.2.1 h
    · exact hproper.2.2 h
  have hsplit := splitOn_canonical h (by rw [hn]; simp)
  rw [Disk.lstat, namesOf_abs h.1, hsplit, hn, ← List.cons_append, Option.map_some,
    List.reverse_concat]
  simp only [if_neg hskip, List.reverse_reverse]
  rw [resolve_nil_cons]

theorem lstat_root (h : Canonical path) (hnil : elements path = []) :
    d.lstat wd path = some d.root := by
  have hpath : path = "/" := by
    rw [← ofElements_elements h, hnil]
    decide
  have hsplit : "/".toList.splitOn '/' = [[], []] := by decide
  have hlocate : d.locate wd path = some [] := by
    rw [locate_canonical h, hnil]
    cases d.links <;> rfl
  rw [Disk.lstat, namesOf_abs h.1]
  simp only [hpath, hsplit, Option.map_some, List.reverse_cons, List.reverse_nil, List.nil_append,
    List.singleton_append, true_or, if_true]
  rw [← hpath, hlocate]
  rfl

/-- What is there without following a link has a place. -/
theorem placed_of_lstat (h : Canonical path) (hl : d.lstat wd path = some e) :
    ∃ loc, Placed d wd path loc e := by
  obtain hnil | ⟨front, n, hn⟩ := List.eq_nil_or_concat (elements path)
  · rw [lstat_root h hnil] at hl
    obtain rfl := Option.some.inj hl
    refine ⟨[], h, lstat_root h hnil, rfl, fun _ => ?_⟩
    rw [locate_canonical h, hnil]
    cases d.links <;> rfl
  · rw [List.concat_eq_append] at hn
    have hproper : Proper n := proper_elements h (hn ▸ List.mem_append_right front (by simp))
    have hl' := hl
    rw [lstat_concat h hn] at hl'
    obtain ⟨e', he', hget⟩ := Option.bind_eq_some_iff.mp hl'
    obtain ⟨loc, hloc, hfind⟩ := Option.bind_eq_some_iff.mp he'
    have hbind : (d.root.find loc).bind (·.get n) = some e := by
      rw [hfind, Option.bind_some, hget]
    refine ⟨loc ++ [n], h, hl, by rw [Entry.find_concat, hbind], fun hlink => ?_⟩
    rw [locate_canonical h, hn]
    exact Entry.resolve_concat hproper hloc hbind hlink

/-- The children of a directory have their places. -/
theorem Placed.child {names : List Name} {child : Name → Entry}
    (h : Placed d wd path loc (.dir names child)) (hn : n ∈ names) :
    Placed d wd (join path (String.ofList n)) (loc ++ [n]) (child n) := by
  have hlocate := h.locate rfl
  rw [locate_canonical h.canonical] at hlocate
  have hget : (Entry.dir names child).get n = some (child n) := if_pos hn
  have hbind : (d.root.find loc).bind (·.get n) = some (child n) := by
    rw [h.find, Option.bind_some, hget]
  obtain ⟨hproper, hslash, _⟩ := (d.named.find h.find).1 n hn
  have hjoin : Canonical (join path (String.ofList n)) := canonical_join h.canonical
  have helements : elements (join path (String.ofList n)) = elements path ++ [n] :=
    elements_join (canonical_ne_empty h.canonical) hproper hslash
  refine ⟨hjoin, ?_, by rw [Entry.find_concat, hbind], fun hlink => ?_⟩
  · rw [lstat_concat hjoin helements, hlocate, Option.bind_some, hbind]
  · rw [locate_canonical hjoin, helements]
    exact Entry.resolve_concat hproper hlocate hbind hlink

end RivicQ.Discovery.Disks
