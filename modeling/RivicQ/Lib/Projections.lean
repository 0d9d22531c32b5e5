import Mathlib.Data.List.Basic

namespace RivicQ.Lib.Projections

variable {S A R T : Type} (step : S → A → R × S)

/-- The replies of a run, each with the state it leaves behind. -/
def trace (s : S) : List A → List (R × S)
  | [] => []
  | a :: as => step s a :: trace (step s a).2 as

/-- Every action of a run is one that `P` allows where it is taken. -/
def Along (P : S → A → Prop) (s : S) : List A → Prop
  | [] => True
  | a :: as => P s a ∧ Along P (step s a).2 as

instance instDecidableAlong (P : S → A → Prop) [∀ s a, Decidable (P s a)] :
    ∀ (as : List A) (s : S), Decidable (Along step P s as)
  | [], _ => isTrue trivial
  | a :: as, s =>
    have := instDecidableAlong P as (step s a).2
    inferInstanceAs (Decidable (P s a ∧ Along step P (step s a).2 as))

/-- The state that a run ends in. -/
def after (s : S) : List A → S
  | [] => s
  | a :: as => after (step s a).2 as

theorem after_append (s : S) (as bs : List A) :
    after step s (as ++ bs) = after step (after step s as) bs := by
  induction as generalizing s with
  | nil => rfl
  | cons a as ih => exact ih (step s a).2

theorem along_append {P : S → A → Prop} (s : S) (as bs : List A) :
    Along step P s (as ++ bs) ↔ Along step P s as ∧ Along step P (after step s as) bs := by
  induction as generalizing s with
  | nil => exact (iff_of_eq (true_and _)).symm
  | cons a as ih => exact (and_congr_right fun _ => ih (step s a).2).trans and_assoc.symm

variable {step} {I : S → Prop} {P Q : S → A → Prop}

/-- A condition on an image of the state is met along the run of the images. -/
theorem along_map {S' R' : Type} {step' : S' → A → R' × S'} {φ : S → S'} {P : S' → A → Prop}
    (h : ∀ s a, φ (step s a).2 = (step' (φ s) a).2) (s : S) (as : List A) :
    Along step (fun s a => P (φ s) a) s as ↔ Along step' P (φ s) as := by
  induction as generalizing s with
  | nil => exact Iff.rfl
  | cons a as ih =>
    simp only [Along]
    rw [ih, h]

/-- Conditions that agree where an invariant holds agree along a run. -/
theorem along_congr (hI : ∀ s a, I s → I (step s a).2) (h : ∀ s a, I s → (P s a ↔ Q s a))
    {s : S} (hs : I s) (as : List A) : Along step P s as ↔ Along step Q s as := by
  induction as generalizing s with
  | nil => exact Iff.rfl
  | cons a as ih =>
    simp only [Along]
    rw [h s a hs, ih (hI s a hs)]

/-- A part of the state stays as it is throughout a run exactly if every step keeps it. -/
theorem keeps_iff (part : S → T) (s : S) (as : List A) :
    (∀ x ∈ trace step s as, part x.2 = part s) ↔
      Along step (fun s a => part (step s a).2 = part s) s as := by
  induction as generalizing s with
  | nil => exact iff_of_true (fun _ h => nomatch h) trivial
  | cons a as ih =>
    simp only [trace, List.forall_mem_cons, Along]
    refine and_congr_right fun hkeep => ?_
    rw [← ih, hkeep]

/-- A step that answers as it would without a part of the state, and keeps that part. -/
def Blind (hide : S → S) (part : S → T) (step : S → A → R × S) (s : S) (a : A) : Prop :=
  (step s a).1 = (step (hide s) a).1 ∧ part (step s a).2 = part s

/-- A run answers as it would without a part of the state, and keeps that part throughout,
exactly if each of its steps does. -/
theorem blind_iff {hide : S → S} {part : S → T}
    (hhide : ∀ s a, I s → Blind hide part step s a →
      hide (step s a).2 = (step (hide s) a).2)
    (hI : ∀ s a, I s → I (step s a).2) {s : S} (hs : I s) (as : List A) :
    ((trace step s as).map Prod.fst = (trace step (hide s) as).map Prod.fst ∧
      ∀ x ∈ trace step s as, part x.2 = part s) ↔
      Along step (Blind hide part step) s as := by
  induction as generalizing s with
  | nil => exact iff_of_true ⟨rfl, fun _ h => nomatch h⟩ trivial
  | cons a as ih =>
    simp only [trace, List.map_cons, List.cons.injEq, List.forall_mem_cons, Along]
    constructor
    · rintro ⟨⟨hreply, hreplies⟩, hkeep, hkeeps⟩
      have hstep : Blind hide part step s a := ⟨hreply, hkeep⟩
      refine ⟨hstep, (ih (hI s a hs)).mp ⟨?_, fun x hx => (hkeeps x hx).trans hkeep.symm⟩⟩
      rw [hhide s a hs hstep]
      exact hreplies
    · rintro ⟨hstep, hrest⟩
      obtain ⟨hreplies, hkeeps⟩ := (ih (hI s a hs)).mpr hrest
      rw [hhide s a hs hstep] at hreplies
      exact ⟨⟨hstep.1, hreplies⟩, hstep.2, fun x hx => (hkeeps x hx).trans hstep.2⟩

/-- What holds at first holds throughout a run exactly if every step keeps it. -/
theorem throughout_iff {Good : S → Prop} (hI : ∀ s a, I s → P s a → I (step s a).2)
    (hkeep : ∀ s a, I s → Good s → (Good (step s a).2 ↔ P s a)) {s : S} (hs : I s)
    (hgood : Good s) (as : List A) :
    (∀ x ∈ trace step s as, Good x.2) ↔ Along step P s as := by
  induction as generalizing s with
  | nil => exact iff_of_true (fun _ h => nomatch h) trivial
  | cons a as ih =>
    simp only [trace, List.forall_mem_cons, Along]
    rw [← hkeep s a hs hgood]
    exact and_congr_right fun hnext => ih (hI s a hs ((hkeep s a hs hgood).mp hnext)) hnext

/-- What holds throughout a run holds after every part of it. -/
theorem forall_trace_iff {Good : S → Prop} {s : S} (hgood : Good s) (as : List A) :
    (∀ x ∈ trace step s as, Good x.2) ↔ ∀ bs, bs <+: as → Good (after step s bs) := by
  induction as generalizing s with
  | nil =>
    refine iff_of_true (fun _ h => nomatch h) fun bs hbs => ?_
    rw [List.prefix_nil.mp hbs]
    exact hgood
  | cons a as ih =>
    simp only [trace, List.forall_mem_cons]
    constructor
    · rintro ⟨hnext, hrest⟩ bs hbs
      cases bs with
      | nil => exact hgood
      | cons b bs =>
        obtain ⟨rfl, hprefix⟩ := List.cons_prefix_cons.mp hbs
        exact (ih hnext).mp hrest bs hprefix
    · intro h
      have hnext : Good (step s a).2 := h [a] (List.cons_prefix_cons.mpr ⟨rfl, List.nil_prefix⟩)
      exact ⟨hnext, (ih hnext).mpr fun bs hbs => h (a :: bs) (List.cons_prefix_cons.mpr ⟨rfl, hbs⟩)⟩

end RivicQ.Lib.Projections

namespace RivicQ.Lib.Readers

open RivicQ.Lib.Projections

variable {L L' S T O O' : Type}

/-- What a reader puts out, line after line. -/
def outputs (step : S → L → List O × S) (s : S) : List L → List O
  | [] => []
  | l :: ls => (step s l).1 ++ outputs step (step s l).2 ls

/-- What stands in a text, where each line stands in a place of its own. -/
def given (next : T → L → T) (gives : T → L → List O) (t : T) : List L → List O
  | [] => []
  | l :: ls => gives t l ++ given next gives (next t l) ls

/-- The state that a reader is in at the end. -/
def stateAfter (step : S → L → List O × S) (s : S) (ls : List L) : S :=
  ls.foldl (fun s l => (step s l).2) s

theorem outputs_append (step : S → L → List O × S) (s : S) (ls ls' : List L) :
    outputs step s (ls ++ ls') =
      outputs step s ls ++ outputs step (stateAfter step s ls) ls' := by
  induction ls generalizing s with
  | nil => rfl
  | cons l ls ih =>
    rw [List.cons_append, outputs, outputs, ih, List.append_assoc]
    rfl

theorem outputs_map (step : S → L → List O × S) (f : L' → L) (s : S) (ls : List L') :
    outputs step s (ls.map f) = outputs (fun s l => step s (f l)) s ls := by
  induction ls generalizing s with
  | nil => rfl
  | cons l ls ih => exact congrArg _ (ih (step s (f l)).2)

theorem outputs_filterMap (step : S → L → List O × S) (g : O → Option O') (s : S) (ls : List L) :
    (outputs step s ls).filterMap g =
      outputs (fun s l => ((step s l).1.filterMap g, (step s l).2)) s ls := by
  induction ls generalizing s with
  | nil => rfl
  | cons l ls ih =>
    rw [outputs, List.filterMap_append, ih]
    rfl

variable {step : S → L → List O × S} {next : T → L → T} {gives : T → L → List O}
  {state : T → S} {Allowed Clear : T → L → Prop} {Genuine : O → Prop} {t : T}

/-- A reader that puts out something odd at a line that is not clear, and what the line gives
otherwise, with the state of the next place. -/
structure Reads (step : S → L → List O × S) (next : T → L → T) (gives : T → L → List O)
    (state : T → S) (Allowed Clear : T → L → Prop) (Genuine : O → Prop) : Prop where
  odd : ∀ t l, Allowed t l → ¬ Clear t l → ∃ o ∈ (step (state t) l).1, ¬ Genuine o
  clear : ∀ t l, Allowed t l → Clear t l → step (state t) l = (gives t l, state (next t l))
  genuine : ∀ t l, ∀ o ∈ gives t l, Genuine o

theorem outputs_eq (h : Reads step next gives state Allowed Clear Genuine) {ls : List L}
    (hallowed : Along (fun t l => ((), next t l)) Allowed t ls)
    (hclear : Along (fun t l => ((), next t l)) Clear t ls) :
    outputs step (state t) ls = given next gives t ls := by
  induction ls generalizing t with
  | nil => rfl
  | cons l ls ih => rw [outputs, h.clear t l hallowed.1 hclear.1, given, ih hallowed.2 hclear.2]

/-- Nothing odd is put out exactly if every line is clear. -/
theorem genuine_iff (h : Reads step next gives state Allowed Clear Genuine) {ls : List L}
    (hallowed : Along (fun t l => ((), next t l)) Allowed t ls) :
    (∀ o ∈ outputs step (state t) ls, Genuine o) ↔
      Along (fun t l => ((), next t l)) Clear t ls := by
  induction ls generalizing t with
  | nil => exact iff_of_true (List.forall_mem_nil _) trivial
  | cons l ls ih =>
    rw [outputs, List.forall_mem_append]
    by_cases hclear : Clear t l
    · rw [h.clear t l hallowed.1 hclear, ih hallowed.2]
      exact and_congr_left fun _ => iff_of_true (h.genuine t l) hclear
    · obtain ⟨o, ho, hodd⟩ := h.odd t l hallowed.1 hclear
      exact iff_of_false (fun hall => hodd (hall.1 o ho)) fun hall => hclear hall.1

/-- A reader puts out the genuine things of a list exactly if every line is clear and all of
them are given. -/
theorem outputs_iff (h : Reads step next gives state Allowed Clear Genuine) {ls : List L}
    (hallowed : Along (fun t l => ((), next t l)) Allowed t ls) {wanted : List O}
    (hgenuine : ∀ o ∈ wanted, Genuine o) (hgiven : ∀ o ∈ given next gives t ls, o ∈ wanted) :
    (∀ o, o ∈ outputs step (state t) ls ↔ o ∈ wanted) ↔
      Along (fun t l => ((), next t l)) Clear t ls ∧
        ∀ o ∈ wanted, o ∈ given next gives t ls := by
  constructor
  · intro hout
    have hclear := (genuine_iff h hallowed).mp fun o ho => hgenuine o ((hout o).mp ho)
    rw [outputs_eq h hallowed hclear] at hout
    exact ⟨hclear, fun o ho => (hout o).mpr ho⟩
  · rintro ⟨hclear, hwanted⟩ o
    rw [outputs_eq h hallowed hclear]
    exact ⟨hgiven o, hwanted o⟩

end RivicQ.Lib.Readers
