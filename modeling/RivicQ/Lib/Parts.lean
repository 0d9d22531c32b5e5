import RivicQ.Lib.Projections

namespace RivicQ.Lib.Parts

open RivicQ.Lib.Projections

variable {S A R Q K : Type}

section Confinement

variable (part : K → S → S) (C : S → Prop) (k : K)

/-- What is done on behalf of one who shares the state with others: where `C` holds it answers as
its own part alone would, and does there what it does to that part, and it leaves the parts of
the others as they are. -/
structure Confined (f : S → R × S) (s : S) : Prop where
  reply : C s → (f s).1 = (f (part k s)).1
  own : C s → part k (f s).2 = (f (part k s)).2
  others : ∀ j, j ≠ k → part j (f s).2 = part j s

variable {part C k} {f : S → R × S} {s : S}

theorem confined_const (r : R) : Confined part C k (fun s => (r, s)) s :=
  ⟨fun _ => rfl, fun _ => rfl, fun _ _ => rfl⟩

theorem confined_read {q : S → R} (h : q s = q (part k s)) :
    Confined part C k (fun s => (q s, s)) s :=
  ⟨fun _ => h, fun _ => rfl, fun _ _ => rfl⟩

/-- First something is read, and what is done then depends on it. -/
theorem confined_ask {q : S → Q} {g : Q → S → R × S} (h : q s = q (part k s))
    (hg : Confined part C k (g (q s)) s) : Confined part C k (fun s => g (q s) s) s where
  reply hC := by
    rw [← h]
    exact hg.reply hC
  own hC := by
    rw [← h]
    exact hg.own hC
  others := hg.others

/-- What the reply is made into changes nothing. -/
theorem confined_map (hf : Confined part C k f s) (g : R → Q) :
    Confined part C k (fun s => (g (f s).1, (f s).2)) s :=
  ⟨fun hC => congrArg g (hf.reply hC), hf.own, hf.others⟩

theorem confined_bind {g : R → S → Q × S} (hf : Confined part C k f s)
    (hC : C s → C (f s).2) (hg : Confined part C k (g (f s).1) (f s).2) :
    Confined part C k (fun s => g (f s).1 (f s).2) s where
  reply h := by
    rw [← hf.reply h, ← hf.own h]
    exact hg.reply (hC h)
  own h := by
    rw [← hf.reply h, ← hf.own h]
    exact hg.own (hC h)
  others j hj := (hg.others j hj).trans (hf.others j hj)

end Confinement

section Runs

variable (step : S → A → R × S) (sharer : A → K) [DecidableEq K]

/-- The replies to the actions of one of the sharers, in a run of all of them. -/
def repliesTo (k : K) (s : S) : List A → List R
  | [] => []
  | a :: as =>
    if sharer a = k then (step s a).1 :: repliesTo k (step s a).2 as
    else repliesTo k (step s a).2 as

variable {step sharer} {part : K → S → S} {C : A → S → Prop} {s : S} {as : List A}

/-- Where every action is confined to the part of its sharer, each of them gets the replies, and
has in the end the part, that it would without the others. -/
theorem repliesTo_alone (hconfined : ∀ s a, C a s → Confined part (C a) (sharer a) (step · a) s)
    (hC : Along step (fun s a => C a s) s as) (k : K) :
    repliesTo step sharer k s as =
        (trace step (part k s) (as.filter (sharer · = k))).map Prod.fst ∧
      part k (after step s as) = after step (part k s) (as.filter (sharer · = k)) := by
  induction as generalizing s with
  | nil => exact ⟨rfl, rfl⟩
  | cons a as ih =>
    obtain ⟨ha, has⟩ := hC
    have hstep := hconfined s a ha
    obtain ⟨hreplies, hpart⟩ := ih has
    by_cases hk : sharer a = k
    · subst hk
      rw [hstep.own ha] at hreplies hpart
      rw [List.filter_cons_of_pos (by simp), repliesTo, if_pos rfl, hreplies, hstep.reply ha]
      exact ⟨rfl, hpart⟩
    · rw [hstep.others k (Ne.symm hk)] at hreplies hpart
      rw [List.filter_cons_of_neg (by simpa using hk), repliesTo, if_neg hk]
      exact ⟨hreplies, hpart⟩

/-- Conditions that agree on the actions of a run agree along it. -/
theorem along_congr_of_mem {P P' : S → A → Prop} (h : ∀ a ∈ as, ∀ s, P s a ↔ P' s a) :
    Along step P s as ↔ Along step P' s as := by
  induction as generalizing s with
  | nil => exact Iff.rfl
  | cons a as ih =>
    obtain ⟨ha, has⟩ := List.forall_mem_cons.mp h
    exact and_congr (ha s) (ih has)

end Runs

end RivicQ.Lib.Parts
