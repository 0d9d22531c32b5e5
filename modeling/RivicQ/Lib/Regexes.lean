import Mathlib.Data.List.Basic

namespace RivicQ.Lib.Regexes

variable {α : Type}

/-- Regular expressions whose alternatives are tried in order, with what stands before and
after a position to look at, and with numbered groups. -/
inductive Regex (α : Type) where
  | empty
  | one (p : α → Bool)
  | look (p : Option α → Option α → Bool)
  | seq (r s : Regex α)
  | alt (r s : Regex α)
  | star (greedy : Bool) (r : Regex α)
  | group (n : Nat) (r : Regex α)

namespace Regex

def seqs : List (Regex α) → Regex α
  | [] => .empty
  | [r] => r
  | r :: rs => .seq r (seqs rs)

def alts : List (Regex α) → Regex α
  | [] => .one fun _ => false
  | [r] => r
  | r :: rs => .alt r (alts rs)

def opt (r : Regex α) : Regex α := .alt r .empty

def many (r : Regex α) : Regex α := .star true r

def plus (r : Regex α) : Regex α := .seq r (many r)

def times : Nat → Regex α → Regex α
  | 0, _ => .empty
  | n + 1, r => .seq r (times n r)

def atLeast (n : Nat) (r : Regex α) : Regex α := .seq (times n r) (many r)

end Regex

/-- A way for an expression to match: the text, its groups, and what is left after it. -/
structure Way (α : Type) where
  text : List α
  groups : List (Nat × List α) := []
  after : List α

def Way.next (v w : Way α) : Way α := ⟨v.text ++ w.text, v.groups ++ w.groups, w.after⟩

/-- The symbol before what follows a text. -/
def last (prev : Option α) (text : List α) : Option α := text.getLast?.or prev

/-- The ways to repeat a step, each time with some text. -/
def repeated (step : Option α → List α → List (Way α)) (greedy : Bool) :
    Nat → Option α → List α → List (Way α)
  | 0, _, rest => [{ text := [], after := rest }]
  | n + 1, prev, rest =>
    let more := ((step prev rest).filter fun v => !v.text.isEmpty).flatMap fun v =>
      (repeated step greedy n (last prev v.text) v.after).map v.next
    if greedy then more ++ [{ text := [], after := rest }]
    else { text := [], after := rest } :: more

/-- The ways to match at the start of `rest`, the preferred ones first. -/
def ways : Regex α → Option α → List α → List (Way α)
  | .empty, _, rest => [{ text := [], after := rest }]
  | .one _, _, [] => []
  | .one p, _, a :: rest => if p a then [{ text := [a], after := rest }] else []
  | .look p, prev, rest => if p prev rest.head? then [{ text := [], after := rest }] else []
  | .seq r s, prev, rest =>
    (ways r prev rest).flatMap fun v => (ways s (last prev v.text) v.after).map v.next
  | .alt r s, prev, rest => ways r prev rest ++ ways s prev rest
  | .star greedy r, prev, rest => repeated (ways r) greedy rest.length prev rest
  | .group n r, prev, rest =>
    (ways r prev rest).map fun w => { w with groups := w.groups ++ [(n, w.text)] }

structure Match (α : Type) where
  before : List α
  text : List α
  groups : List (Nat × List α)
  after : List α

/-- What a group has matched at last. -/
def Match.group (m : Match α) (n : Nat) : List α := (m.groups.reverse.lookup n).getD []

/-- The first match after `before`, which is in reverse. -/
def findFrom (r : Regex α) : List α → List α → Option (Match α)
  | before, [] =>
    (ways r before.head? []).head?.map fun w => ⟨before.reverse, w.text, w.groups, w.after⟩
  | before, a :: rest =>
    match (ways r before.head? (a :: rest)).head? with
    | some w => some ⟨before.reverse, w.text, w.groups, w.after⟩
    | none => findFrom r (a :: before) rest

/-- The leftmost match, in the preferred way. -/
def find (r : Regex α) (text : List α) : Option (Match α) := findFrom r [] text

/-- Where to look on after a match; an empty one is passed over. -/
def Match.resume (m : Match α) : List α × List α :=
  match m.text, m.after with
  | [], a :: rest => (a :: m.before.reverse, rest)
  | text, after => ((m.before ++ text).reverse, after)

/-- The matches that do not overlap, from the left. -/
def findAllFrom (r : Regex α) : Nat → List α → List α → List (Match α)
  | 0, _, _ => []
  | n + 1, before, rest =>
    match findFrom r before rest with
    | none => []
    | some m => m :: findAllFrom r n m.resume.1 m.resume.2

def findAll (r : Regex α) (text : List α) : List (Match α) :=
  findAllFrom r (text.length + 1) [] text

theorem findAll_none {r : Regex α} {text : List α} (h : find r text = none) :
    findAll r text = [] := by
  rw [findAll, findAllFrom, ← find, h]

theorem findAll_some {r : Regex α} {text : List α} {m : Match α} (h : find r text = some m) :
    ∃ ms, findAll r text = m :: ms := by
  rw [findAll, findAllFrom, ← find, h]
  exact ⟨_, rfl⟩

section Ways

variable {r s : Regex α} {prev : Option α} {rest : List α} {v w : Way α}

theorem mem_ways_seq : w ∈ ways (.seq r s) prev rest ↔
    ∃ v ∈ ways r prev rest, ∃ x ∈ ways s (last prev v.text) v.after, v.next x = w := by
  simp only [ways, List.mem_flatMap, List.mem_map]

theorem mem_ways_alt : w ∈ ways (.alt r s) prev rest ↔
    w ∈ ways r prev rest ∨ w ∈ ways s prev rest := List.mem_append

theorem mem_ways_group {n : Nat} : w ∈ ways (.group n r) prev rest ↔
    ∃ v ∈ ways r prev rest, { v with groups := v.groups ++ [(n, v.text)] } = w := List.mem_map

/-- Expressions without groups. -/
def Ungrouped : Regex α → Prop
  | .empty | .one _ | .look _ => True
  | .seq r s | .alt r s => Ungrouped r ∧ Ungrouped s
  | .star _ r => Ungrouped r
  | .group _ _ => False

theorem groups_repeated {step : Option α → List α → List (Way α)} {greedy : Bool}
    (hstep : ∀ prev rest, ∀ v ∈ step prev rest, v.groups = []) {n : Nat}
    (hw : w ∈ repeated step greedy n prev rest) : w.groups = [] := by
  induction n generalizing prev rest w with
  | zero =>
    obtain rfl := List.mem_singleton.mp hw
    rfl
  | succ n ih =>
    have hmore : w = { text := [], after := rest } ∨ ∃ v ∈ step prev rest,
        ∃ x ∈ repeated step greedy n (last prev v.text) v.after, v.next x = w := by
      cases greedy <;>
        simp only [repeated, ↓reduceIte, Bool.false_eq_true, List.mem_append, List.mem_cons,
          List.not_mem_nil, or_false, List.mem_flatMap, List.mem_filter, List.mem_map] at hw
      · obtain hw | ⟨v, ⟨hv, -⟩, hx⟩ := hw
        · exact .inl hw
        · exact .inr ⟨v, hv, hx⟩
      · obtain ⟨v, ⟨hv, -⟩, hx⟩ | hw := hw
        · exact .inr ⟨v, hv, hx⟩
        · exact .inl hw
    obtain rfl | ⟨v, hv, x, hx, rfl⟩ := hmore
    · rfl
    · rw [Way.next, hstep prev rest v hv, ih hx, List.append_nil]

theorem groups_of_ungrouped (hr : Ungrouped r) (hw : w ∈ ways r prev rest) : w.groups = [] := by
  induction r generalizing prev rest w with
  | empty =>
    obtain rfl := List.mem_singleton.mp hw
    rfl
  | one p =>
    cases rest with
    | nil => cases hw
    | cons a rest =>
      unfold ways at hw
      split at hw
      · obtain rfl := List.mem_singleton.mp hw
        rfl
      · cases hw
  | look p =>
    unfold ways at hw
    split at hw
    · obtain rfl := List.mem_singleton.mp hw
      rfl
    · cases hw
  | seq r s ihr ihs =>
    obtain ⟨v, hv, x, hx, rfl⟩ := mem_ways_seq.mp hw
    rw [Way.next, ihr hr.1 hv, ihs hr.2 hx, List.append_nil]
  | alt r s ihr ihs => exact (mem_ways_alt.mp hw).elim (ihr hr.1) (ihs hr.2)
  | star greedy r ih => exact groups_repeated (fun _ _ _ hv => ih hr hv) hw
  | group n r ih => exact hr.elim

theorem groups_group {n : Nat} (hr : Ungrouped r) (hw : w ∈ ways (.group n r) prev rest) :
    ∃ v ∈ ways r prev rest, w.groups = [(n, v.text)] := by
  obtain ⟨v, hv, rfl⟩ := mem_ways_group.mp hw
  exact ⟨v, hv, by rw [groups_of_ungrouped hr hv, List.nil_append]⟩

theorem mem_ways_seqs_cons {rs : List (Regex α)} (hw : w ∈ ways (Regex.seqs (r :: rs)) prev rest) :
    ∃ v ∈ ways r prev rest, ∃ prev' rest', ∃ x ∈ ways (Regex.seqs rs) prev' rest',
      w.text = v.text ++ x.text ∧ w.groups = v.groups ++ x.groups := by
  cases rs with
  | nil =>
    exact ⟨w, hw, none, [], _, List.mem_singleton_self _, (List.append_nil _).symm,
      (List.append_nil _).symm⟩
  | cons s rs =>
    obtain ⟨v, hv, x, hx, rfl⟩ := mem_ways_seq.mp hw
    exact ⟨v, hv, _, _, x, hx, rfl, rfl⟩

theorem mem_ways_alts {rs : List (Regex α)} (hw : w ∈ ways (Regex.alts rs) prev rest) :
    ∃ r ∈ rs, w ∈ ways r prev rest := by
  induction rs with
  | nil => cases rest <;> cases hw
  | cons r rs ih =>
    cases rs with
    | nil => exact ⟨r, List.mem_cons_self, hw⟩
    | cons s rs =>
      obtain hw | hw := mem_ways_alt.mp hw
      · exact ⟨r, List.mem_cons_self, hw⟩
      · obtain ⟨r', hr', hw⟩ := ih hw
        exact ⟨r', List.mem_cons_of_mem r hr', hw⟩

theorem ungrouped_seqs {rs : List (Regex α)} (h : ∀ r ∈ rs, Ungrouped r) :
    Ungrouped (Regex.seqs rs) := by
  induction rs with
  | nil => trivial
  | cons r rs ih =>
    obtain ⟨hr, hrs⟩ := List.forall_mem_cons.mp h
    cases rs with
    | nil => exact hr
    | cons s rs => exact ⟨hr, ih hrs⟩

theorem ungrouped_alts {rs : List (Regex α)} (h : ∀ r ∈ rs, Ungrouped r) :
    Ungrouped (Regex.alts rs) := by
  induction rs with
  | nil => trivial
  | cons r rs ih =>
    obtain ⟨hr, hrs⟩ := List.forall_mem_cons.mp h
    cases rs with
    | nil => exact hr
    | cons s rs => exact ⟨hr, ih hrs⟩

/-- The group of a sequence that has one. -/
theorem groups_seqs {n : Nat} {front back : List (Regex α)} (hfront : ∀ s ∈ front, Ungrouped s)
    (hr : Ungrouped r) (hback : ∀ s ∈ back, Ungrouped s)
    (hw : w ∈ ways (Regex.seqs (front ++ .group n r :: back)) prev rest) :
    ∃ prev' rest', ∃ v ∈ ways r prev' rest', w.groups = [(n, v.text)] := by
  induction front generalizing prev rest w with
  | nil =>
    obtain ⟨v, hv, _, _, x, hx, -, hgroups⟩ := mem_ways_seqs_cons hw
    obtain ⟨u, hu, hvgroups⟩ := groups_group hr hv
    rw [hvgroups, groups_of_ungrouped (ungrouped_seqs hback) hx, List.append_nil] at hgroups
    exact ⟨_, _, u, hu, hgroups⟩
  | cons s front ih =>
    obtain ⟨hs, hfront⟩ := List.forall_mem_cons.mp hfront
    obtain ⟨v, hv, _, _, x, hx, -, hgroups⟩ := mem_ways_seqs_cons hw
    obtain ⟨_, _, u, hu, hxgroups⟩ := ih hfront hx
    rw [groups_of_ungrouped hs hv, List.nil_append, hxgroups] at hgroups
    exact ⟨_, _, u, hu, hgroups⟩

theorem findFrom_mem {before text : List α} {m : Match α} (h : findFrom r before text = some m) :
    ∃ prev rest, ∃ w ∈ ways r prev rest, m.groups = w.groups := by
  induction text generalizing before with
  | nil =>
    obtain ⟨w, hw, rfl⟩ := Option.map_eq_some_iff.mp h
    exact ⟨_, _, w, List.mem_of_head? hw, rfl⟩
  | cons a text ih =>
    unfold findFrom at h
    split at h
    · next w hw =>
      obtain rfl := Option.some.inj h
      exact ⟨_, _, w, List.mem_of_head? hw, rfl⟩
    · exact ih h

end Ways

end RivicQ.Lib.Regexes
