import Mathlib.Data.List.Basic
import RivicQ.Lib.Programs

namespace RivicQ.Lib.Unwinding

variable {S A : Type}

/-- What one observer of a shared state can tell apart is moved by its own actions
alike in states that look alike, and not at all by those of others. -/
structure Unwinds (step : S → A → S) (Inv : S → Prop) (Ok Mine : A → Prop) (Same : S → S → Prop) :
    Prop where
  inv : ∀ s a, Ok a → Inv s → Inv (step s a)
  own : ∀ s s' a, Ok a → Mine a → Inv s → Inv s' → Same s s' → Same (step s a) (step s' a)
  other : ∀ s s' a, Ok a → ¬ Mine a → Inv s → Same s s' → Same (step s a) s'

variable {step : S → A → S} {Inv : S → Prop} {Ok Mine : A → Prop} {Same : S → S → Prop}

/-- The actions of others can be left out of a run. -/
theorem Unwinds.run [DecidablePred Mine] (h : Unwinds step Inv Ok Mine Same) {as : List A}
    (hok : ∀ a ∈ as, Ok a) {s s' : S} (hs : Inv s) (hs' : Inv s') (hsame : Same s s') :
    Same (as.foldl step s) ((as.filter fun a => Mine a).foldl step s') := by
  induction as generalizing s s' with
  | nil => exact hsame
  | cons a as ih =>
    have ha : Ok a := hok a List.mem_cons_self
    have htail : ∀ b ∈ as, Ok b := fun b hb => hok b (List.mem_cons_of_mem a hb)
    by_cases hmine : Mine a
    · rw [List.filter_cons_of_pos (by simpa using hmine), List.foldl_cons, List.foldl_cons]
      exact ih htail (h.inv s a ha hs) (h.inv s' a ha hs') (h.own s s' a ha hmine hs hs' hsame)
    · rw [List.filter_cons_of_neg (by simpa using hmine), List.foldl_cons]
      exact ih htail (h.inv s a ha hs) hs' (h.other s s' a ha hmine hs hsame)

end RivicQ.Lib.Unwinding

namespace RivicQ.Lib.Traces

open RivicQ.Lib.Programs

/-- A request that was made, with its reply. -/
structure Event (S : Signature) where
  op : S.Op
  reply : S.Reply op

variable {S : Signature} {α β : Type}

/-- The programs' runs against surroundings that may reply in any way. -/
inductive Runs : Program S α → List (Event S) → α → Prop
  | pure (a : α) : Runs (.pure a) [] a
  | request {o : S.Op} {k : S.Reply o → Program S α} (r : S.Reply o) {es : List (Event S)} {a : α}
      (h : Runs (k r) es a) : Runs (.request o k) (⟨o, r⟩ :: es) a

variable {p : Program S α} {f : α → Program S β} {es : List (Event S)} {a a' : α} {b : β}

theorem runs_pure : Runs (.pure a : Program S α) es a' ↔ es = [] ∧ a' = a := by
  constructor
  · rintro ⟨⟩
    exact ⟨rfl, rfl⟩
  · rintro ⟨rfl, rfl⟩
    exact .pure a'

theorem runs_request {o : S.Op} {k : S.Reply o → Program S α} :
    Runs (.request o k) es a ↔ ∃ r es', es = ⟨o, r⟩ :: es' ∧ Runs (k r) es' a := by
  constructor
  · rintro (_ | ⟨r, h⟩)
    exact ⟨r, _, rfl, h⟩
  · rintro ⟨r, es', rfl, h⟩
    exact .request r h

theorem runs_bind : Runs (p.bind f) es b ↔
    ∃ a es₁ es₂, Runs p es₁ a ∧ Runs (f a) es₂ b ∧ es = es₁ ++ es₂ := by
  induction p generalizing es with
  | pure a =>
    rw [Program.pure_bind]
    constructor
    · intro h
      exact ⟨a, [], es, .pure a, h, rfl⟩
    · rintro ⟨a', es₁, es₂, h₁, h₂, rfl⟩
      obtain ⟨rfl, rfl⟩ := runs_pure.mp h₁
      exact h₂
  | request o k ih =>
    rw [Program.request_bind, runs_request]
    constructor
    · rintro ⟨r, es', rfl, h⟩
      obtain ⟨a, es₁, es₂, h₁, h₂, rfl⟩ := (ih r).mp h
      exact ⟨a, ⟨o, r⟩ :: es₁, es₂, .request r h₁, h₂, rfl⟩
    · rintro ⟨a, es₁, es₂, h₁, h₂, rfl⟩
      obtain ⟨r, es', rfl, h⟩ := runs_request.mp h₁
      exact ⟨r, es' ++ es₂, rfl, (ih r).mpr ⟨a, es', es₂, h, h₂, rfl⟩⟩

/-- What a program comes to in some surroundings is the end of a run. -/
theorem runs_run {W : Type} (h : Handler S W) (p : Program S α) (w : W) :
    ∃ es, Runs p es (run h p w).1 := by
  induction p generalizing w with
  | pure a => exact ⟨[], .pure a⟩
  | request o k ih =>
    obtain ⟨es, hes⟩ := ih (h o w).1 (h o w).2
    exact ⟨⟨o, (h o w).1⟩ :: es, .request _ hes⟩

section Along

variable {P : List (Event S) → Event S → Prop}

/-- Every event meets a condition on what came before it. -/
def Along (P : List (Event S) → Event S → Prop) (es : List (Event S)) : Prop :=
  ∀ before e after, es = before ++ e :: after → P before e

theorem along_nil : Along P [] := by
  intro before e after h
  exact absurd h.symm (by simp)

theorem along_cons {e : Event S} (he : P [] e) (h : Along (fun before => P (e :: before)) es) :
    Along P (e :: es) := by
  intro before e' after heq
  cases before with
  | nil =>
    obtain ⟨rfl, _⟩ := List.cons.inj heq
    exact he
  | cons d before =>
    obtain ⟨rfl, hrest⟩ := List.cons.inj heq
    exact h before e' after hrest

/-- The condition only becomes easier to meet with more behind it. -/
def Lasting (P : List (Event S) → Event S → Prop) : Prop :=
  ∀ earlier before e, P before e → P (earlier ++ before) e

theorem Along.extend {es' : List (Event S)} (h : Along P es)
    (h' : Along (fun before => P (es ++ before)) es') : Along P (es ++ es') := by
  intro before e after heq
  obtain ⟨a, rfl, hrest⟩ | ⟨a, rfl, hrest⟩ := List.append_eq_append_iff.mp heq
  · exact h' a e after hrest
  · cases a with
    | nil =>
      have hfirst := h' [] e after hrest.symm
      rwa [List.append_nil, List.append_nil] at hfirst
    | cons d a =>
      obtain ⟨rfl, rfl⟩ := List.cons.inj hrest
      exact h before e a rfl

theorem Along.append (hP : Lasting P) {es' : List (Event S)} (h : Along P es)
    (h' : Along P es') : Along P (es ++ es') :=
  h.extend fun before e after heq => hP es before e (h' before e after heq)

/-- A program all of whose runs meet the condition. -/
def Always (P : List (Event S) → Event S → Prop) (p : Program S α) : Prop :=
  ∀ es a, Runs p es a → Along P es

theorem always_pure : Always P (.pure a : Program S α) := by
  intro es a' h
  rw [(runs_pure.mp h).1]
  exact along_nil

theorem Always.bind (hP : Lasting P) (hp : Always P p) (hf : ∀ a, Always P (f a)) :
    Always P (p.bind f) := by
  intro es b h
  obtain ⟨a, es₁, es₂, h₁, h₂, rfl⟩ := runs_bind.mp h
  exact (hp es₁ a h₁).append hP (hf a es₂ b h₂)

theorem always_next {o : S.Op} {k : S.Reply o → Program S α} (ho : ∀ r, P [] ⟨o, r⟩)
    (hk : ∀ r, Always (fun before => P (⟨o, r⟩ :: before)) (k r)) : Always P (.request o k) := by
  intro es a h
  obtain ⟨r, es', rfl, h'⟩ := runs_request.mp h
  exact along_cons (ho r) (hk r es' a h')

theorem always_request (hP : Lasting P) {o : S.Op} {k : S.Reply o → Program S α}
    (ho : ∀ r, P [] ⟨o, r⟩) (hk : ∀ r, Always P (k r)) : Always P (.request o k) :=
  always_next ho fun r es a h before e after heq =>
    hP [⟨o, r⟩] before e (hk r es a h before e after heq)

end Along

section Interleaving

variable {ps : List (Program S α)} {P : List (Event S) → Event S → Prop}

/-- The events of one of several programs. -/
def project (i : Nat) (es : List (Nat × Event S)) : List (Event S) :=
  es.filterMap fun e => if e.1 = i then some e.2 else none

/-- Programs that go on side by side, each event with the index of its program; at
any moment each program has made the first part of a run. -/
def Interleaves (ps : List (Program S α)) (es : List (Nat × Event S)) : Prop :=
  ∀ e ∈ es, ∃ p ∈ ps[e.1]?, ∃ rest a, Runs p (project e.1 es ++ rest) a

theorem project_append (i : Nat) (es es' : List (Nat × Event S)) :
    project i (es ++ es') = project i es ++ project i es' := List.filterMap_append

theorem project_cons_self (i : Nat) (e : Event S) (es : List (Nat × Event S)) :
    project i ((i, e) :: es) = e :: project i es := by
  simp [project]

theorem mem_project {i : Nat} {e : Event S} {es : List (Nat × Event S)} :
    e ∈ project i es ↔ (i, e) ∈ es := by
  simp [project]

theorem project_map (i : Nat) (es : List (Event S)) : project i (es.map fun e => (i, e)) = es := by
  induction es with
  | nil => rfl
  | cons e es ih => rw [List.map_cons, project_cons_self, ih]

theorem interleaves_alone {p : Program S α} {es rest : List (Event S)} {a : α}
    (h : Runs p (es ++ rest) a) : Interleaves [p] (es.map fun e => (0, e)) := by
  intro e he
  obtain ⟨d, _, rfl⟩ := List.mem_map.mp he
  exact ⟨p, rfl, rest, a, by rwa [project_map]⟩

/-- What holds along the runs of a program holds of each of its events, given what the
program has done before. -/
theorem along_project {i : Nat} {e : Event S} {before after : List (Nat × Event S)}
    (hp : ∀ p ∈ ps[i]?, Always P p) (h : Interleaves ps (before ++ (i, e) :: after)) :
    P (project i before) e := by
  obtain ⟨p, hmem, rest, a, hrun⟩ := h (i, e) (List.mem_append_right before List.mem_cons_self)
  refine (hp p hmem _ a hrun) (project i before) e (project i after ++ rest) ?_
  rw [project_append, project_cons_self, List.append_assoc, List.cons_append]

theorem along_interleaves (hps : ∀ p ∈ ps, Always P p) {i : Nat} {e : Event S}
    {before after : List (Nat × Event S)} (h : Interleaves ps (before ++ (i, e) :: after)) :
    P (project i before) e :=
  along_project (fun p hp => hps p (List.mem_of_getElem? hp)) h

end Interleaving

end RivicQ.Lib.Traces
