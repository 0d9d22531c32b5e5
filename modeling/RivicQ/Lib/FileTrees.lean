import RivicQ.Lib.FilePaths

namespace RivicQ.Lib.FileTrees

open RivicQ.Lib.GoStrings RivicQ.Lib.FilePaths

/-- A file, a symbolic link with the path it holds, or a directory with the names it
lists. -/
inductive Entry where
  | file
  | link (path : String)
  | dir (names : List Name) (child : Name → Entry)

namespace Entry

def get : Entry → Name → Option Entry
  | .dir names child, n => if n ∈ names then some (child n) else none
  | .file, _ => none
  | .link _, _ => none

def isLink : Entry → Bool
  | .link _ => true
  | .file => false
  | .dir _ _ => false

def isDir : Entry → Bool
  | .dir _ _ => true
  | .file => false
  | .link _ => false

/-- The entry at a location, which is reached through directories only. -/
def find : Entry → List Name → Option Entry
  | e, [] => some e
  | e, n :: loc => (e.get n).bind (·.find loc)

/-- The names in a tree are names of their own, without a slash. -/
def Named : Entry → Prop
  | .file => True
  | .link _ => True
  | .dir names child => ∀ n ∈ names, Proper n ∧ '/' ∉ n ∧ (child n).Named

variable (root : Entry)

/-- The location that the names of a path lead to, where something is known about
links. -/
def follow (onLink : List Name → List Name → Option (List Name)) :
    List Name → List Name → Option (List Name)
  | loc, [] => some loc
  | loc, n :: rest =>
    if n = [] ∨ n = ['.'] then follow onLink loc rest
    else if n = dotdot then follow onLink loc.dropLast rest
    else
      match (root.find loc).bind (·.get n) with
      | none => none
      | some .file => if rest = [] then some (loc ++ [n]) else none
      | some (.link path) =>
        onLink (if isAbs path then [] else loc) (path.toList.splitOn '/' ++ rest)
      | some (.dir _ _) => follow onLink (loc ++ [n]) rest

/-- The location that the names of a path lead to, through no more links than said. -/
def resolve : Nat → List Name → List Name → Option (List Name)
  | 0 => root.follow fun _ _ => none
  | k + 1 => root.follow (resolve k)

variable {root} {e : Entry} {loc loc' ns : List Name} {n : Name}
  {f g : List Name → List Name → Option (List Name)} {k : Nat}

theorem get_eq_some {e' : Entry} : e.get n = some e' ↔
    ∃ names child, e = .dir names child ∧ n ∈ names ∧ child n = e' := by
  cases e with
  | file => simp [get]
  | link path => simp [get]
  | dir names child =>
    by_cases h : n ∈ names
    · simp [get, h]
    · simp [get, h]

theorem find_concat : root.find (loc ++ [n]) = (root.find loc).bind (·.get n) := by
  induction loc generalizing root with
  | nil => simp [find]
  | cons m loc ih =>
    simp only [List.cons_append, find]
    cases root.get m with
    | none => rfl
    | some e => exact ih

theorem Named.get (h : root.Named) (hget : root.get n = some e) :
    Proper n ∧ '/' ∉ n ∧ e.Named := by
  obtain ⟨names, child, rfl, hn, rfl⟩ := get_eq_some.mp hget
  exact h n hn

theorem Named.find (h : root.Named) (hfind : root.find loc = some e) :
    e.Named ∧ ∀ n ∈ loc, Proper n ∧ '/' ∉ n := by
  induction loc generalizing root with
  | nil =>
    obtain rfl := Option.some.inj hfind
    exact ⟨h, by simp⟩
  | cons m loc ih =>
    obtain ⟨e', hget, hfind⟩ := Option.bind_eq_some_iff.mp hfind
    obtain ⟨hproper, hslash, hnamed⟩ := h.get hget
    obtain ⟨he, hloc⟩ := ih hnamed hfind
    exact ⟨he, List.forall_mem_cons.mpr ⟨⟨hproper, hslash⟩, hloc⟩⟩

theorem follow_skip (h : n = [] ∨ n = ['.']) :
    root.follow f loc (n :: ns) = root.follow f loc ns := by
  rw [follow, if_pos h]

theorem follow_up (h : n = dotdot) :
    root.follow f loc (n :: ns) = root.follow f loc.dropLast ns := by
  have hskip : ¬ (n = [] ∨ n = ['.']) := by
    rw [h]
    decide
  rw [follow, if_neg hskip, if_pos h]

theorem follow_name (hskip : ¬ (n = [] ∨ n = ['.'])) (hup : n ≠ dotdot) :
    root.follow f loc (n :: ns) =
      match (root.find loc).bind (·.get n) with
      | none => none
      | some .file => if ns = [] then some (loc ++ [n]) else none
      | some (.link path) => f (if isAbs path then [] else loc) (path.toList.splitOn '/' ++ ns)
      | some (.dir _ _) => root.follow f (loc ++ [n]) ns := by
  rw [follow, if_neg hskip, if_neg hup]

theorem follow_mono (hfg : ∀ a b l, f a b = some l → g a b = some l)
    (h : root.follow f loc ns = some loc') : root.follow g loc ns = some loc' := by
  induction ns generalizing loc with
  | nil => exact h
  | cons n rest ih =>
    by_cases hskip : n = [] ∨ n = ['.']
    · rw [follow_skip hskip] at h ⊢
      exact ih h
    by_cases hup : n = dotdot
    · rw [follow_up hup] at h ⊢
      exact ih h
    rw [follow_name hskip hup] at h ⊢
    cases hget : (root.find loc).bind (·.get n) with
    | none =>
      rw [hget] at h
      cases h
    | some e =>
      rw [hget] at h
      cases e with
      | file => exact h
      | link path => exact hfg _ _ _ h
      | dir names child => exact ih h

theorem resolve_succ (h : root.resolve k loc ns = some loc') :
    root.resolve (k + 1) loc ns = some loc' := by
  induction k generalizing loc ns loc' with
  | zero => exact follow_mono (fun _ _ _ h => by cases h) h
  | succ k ih => exact follow_mono (fun _ _ _ h => ih h) h

theorem resolve_mono {k' : Nat} (hk : k ≤ k') (h : root.resolve k loc ns = some loc') :
    root.resolve k' loc ns = some loc' := by
  induction hk with
  | refl => exact h
  | step _ ih => exact resolve_succ ih

theorem find_dropLast (h : (root.find loc).isSome = true) :
    (root.find loc.dropLast).isSome = true := by
  induction loc using List.reverseRecOn with
  | nil => exact h
  | append_singleton loc n _ =>
    rw [find_concat] at h
    rw [List.dropLast_concat]
    exact Option.isSome_of_isSome_bind h

/-- What is led to is there. -/
theorem follow_find (hf : ∀ a b l, (root.find a).isSome = true → f a b = some l →
      (root.find l).isSome = true)
    (hloc : (root.find loc).isSome = true) (h : root.follow f loc ns = some loc') :
    (root.find loc').isSome = true := by
  induction ns generalizing loc with
  | nil =>
    obtain rfl := Option.some.inj h
    exact hloc
  | cons n rest ih =>
    by_cases hskip : n = [] ∨ n = ['.']
    · rw [follow_skip hskip] at h
      exact ih hloc h
    by_cases hup : n = dotdot
    · rw [follow_up hup] at h
      exact ih (find_dropLast hloc) h
    rw [follow_name hskip hup] at h
    have hnext : root.find (loc ++ [n]) = (root.find loc).bind (·.get n) := find_concat
    cases hget : (root.find loc).bind (·.get n) with
    | none =>
      rw [hget] at h
      cases h
    | some e =>
      rw [hget] at h hnext
      cases e with
      | file =>
        simp only at h
        split_ifs at h
        obtain rfl := Option.some.inj h
        rw [hnext]
        rfl
      | link path =>
        refine hf _ _ _ ?_ h
        split_ifs
        · rfl
        · exact hloc
      | dir names child => exact ih (by rw [hnext]; rfl) h

theorem resolve_find (hloc : (root.find loc).isSome = true)
    (h : root.resolve k loc ns = some loc') : (root.find loc').isSome = true := by
  induction k generalizing loc ns loc' with
  | zero => exact follow_find (fun _ _ _ _ h => by cases h) hloc h
  | succ k ih => exact follow_find (fun _ _ _ hloc h => ih hloc h) hloc h

/-- Behind a location one more name leads on, if it is no link. -/
theorem follow_concat (hn : Proper n)
    (hf : ∀ a b l, f a b = some l → ∀ e, (root.find l).bind (·.get n) = some e →
      e.isLink = false → f a (b ++ [n]) = some (l ++ [n]))
    (h : root.follow f loc ns = some loc') (hget : (root.find loc').bind (·.get n) = some e)
    (hlink : e.isLink = false) : root.follow f loc (ns ++ [n]) = some (loc' ++ [n]) := by
  induction ns generalizing loc with
  | nil =>
    obtain rfl := Option.some.inj h
    have hskip : ¬ (n = [] ∨ n = ['.']) := not_or.mpr ⟨hn.1, hn.2.1⟩
    rw [List.nil_append, follow_name hskip hn.2.2, hget]
    cases e with
    | file => rfl
    | link path => cases hlink
    | dir names child => rfl
  | cons m rest ih =>
    rw [List.cons_append]
    by_cases hskip : m = [] ∨ m = ['.']
    · rw [follow_skip hskip] at h ⊢
      exact ih h
    by_cases hup : m = dotdot
    · rw [follow_up hup] at h ⊢
      exact ih h
    rw [follow_name hskip hup] at h ⊢
    cases hm : (root.find loc).bind (·.get m) with
    | none =>
      rw [hm] at h
      cases h
    | some e' =>
      rw [hm] at h
      cases e' with
      | file =>
        simp only at h
        split_ifs at h
        obtain rfl := Option.some.inj h
        rw [find_concat, hm] at hget
        cases hget
      | link path =>
        simp only
        rw [← List.append_assoc]
        exact hf _ _ _ h e hget hlink
      | dir names child => exact ih h

theorem resolve_concat (hn : Proper n) (h : root.resolve k loc ns = some loc')
    (hget : (root.find loc').bind (·.get n) = some e) (hlink : e.isLink = false) :
    root.resolve k loc (ns ++ [n]) = some (loc' ++ [n]) := by
  induction k generalizing loc ns loc' e with
  | zero => exact follow_concat hn (fun _ _ _ h => by cases h) h hget hlink
  | succ k ih => exact follow_concat hn (fun _ _ _ h _ hget hlink => ih h hget hlink) h hget hlink

end Entry

end RivicQ.Lib.FileTrees
