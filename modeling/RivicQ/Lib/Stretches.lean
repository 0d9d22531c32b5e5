import Mathlib.Data.List.Chain
import Mathlib.Data.List.Infix

namespace RivicQ.Lib.Streaks

variable {T : Type} (near : T → T → Prop) [DecidableRel near]

/-- The number of an element, after the last element and its number. -/
def next : Option (T × Nat) → T → Nat
  | none, _ => 1
  | some (u, n), t => if near u t then n + 1 else 1

/-- The elements of a list with their numbers, which begin anew after every gap. -/
def numbered : Option (T × Nat) → List T → List (T × Nat)
  | _, [] => []
  | prev, t :: ts => (t, next near prev t) :: numbered (some (t, next near prev t)) ts

variable {near} {prev : Option (T × Nat)} {t u : T} {n k : Nat} {ts streak done : List T}

theorem next_near (h : near u t) : next near (some (u, n)) t = n + 1 := if_pos h

theorem next_apart (h : ¬ near u t) : next near (some (u, n)) t = 1 := if_neg h

theorem next_pos : 1 ≤ next near prev t := by
  cases prev with
  | none => exact Nat.le_refl 1
  | some p =>
    by_cases h : near p.1 t
    · rw [next_near h]
      omega
    · rw [next_apart h]

theorem pos_of_numbered {p : T × Nat} (h : p ∈ numbered near prev ts) : 1 ≤ p.2 := by
  induction ts generalizing prev with
  | nil => exact nomatch h
  | cons t ts ih =>
    obtain rfl | h := List.mem_cons.mp h
    · exact next_pos
    · exact ih h

theorem numbered_append (prev : Option (T × Nat)) (ts us : List T) :
    numbered near prev (ts ++ us) =
      numbered near prev ts ++ numbered near ((numbered near prev ts).getLast?.or prev) us := by
  induction ts generalizing prev with
  | nil => rfl
  | cons t ts ih =>
    rw [List.cons_append, numbered, ih, numbered, List.cons_append]
    congr 2
    cases hlast : (numbered near (some (t, next near prev t)) ts).getLast? with
    | none => rw [List.getLast?_eq_none_iff.mp hlast, Option.none_or]; rfl
    | some p => rw [List.getLast?_cons, hlast]; rfl

theorem map_numbered (prev : Option (T × Nat)) (ts : List T) :
    (numbered near prev ts).map Prod.fst = ts := by
  induction ts generalizing prev with
  | nil => rfl
  | cons t ts ih => exact congrArg (t :: ·) (ih _)

section Bound

variable [Preorder T]

/-- An element that is near to a later one has a lower number, where those between them are nearer
still. -/
theorem lt_of_near (hinner : ∀ a b c, a ≤ b → b ≤ c → near a c → near a b ∧ near b c)
    (hsorted : (u :: ts).Pairwise (· ≤ ·)) {p : T × Nat}
    (hp : p ∈ numbered near (some (u, n)) ts) (hnear : near u p.1) : n < p.2 := by
  induction ts generalizing u n with
  | nil => exact nomatch hp
  | cons t ts ih =>
    obtain ⟨hfirst, hrest⟩ := List.pairwise_cons.mp hsorted
    have hle : u ≤ t := hfirst t List.mem_cons_self
    obtain rfl | hp := List.mem_cons.mp hp
    · rw [next_near hnear]
      exact Nat.lt_succ_self n
    · have hmem := List.mem_map_of_mem (f := Prod.fst) hp
      rw [map_numbered] at hmem
      obtain ⟨hut, htp⟩ := hinner u t p.1 hle ((List.pairwise_cons.mp hrest).1 p.1 hmem) hnear
      rw [next_near hut] at hp
      exact Nat.lt_of_succ_lt (ih hrest hp htp)

theorem pairwise_numbered (hinner : ∀ a b c, a ≤ b → b ≤ c → near a c → near a b ∧ near b c)
    (prev : Option (T × Nat)) (hsorted : ts.Pairwise (· ≤ ·)) :
    (numbered near prev ts).Pairwise fun p q => near p.1 q.1 → p.2 < q.2 := by
  induction ts generalizing prev with
  | nil => exact List.Pairwise.nil
  | cons t ts ih =>
    refine List.pairwise_cons.mpr ⟨fun q hq hnear => ?_, ih _ (List.pairwise_cons.mp hsorted).2⟩
    exact lt_of_near hinner hsorted hq hnear

theorem length_le_of_increasing {ns : List Nat} (lo : Nat) (h : ns.Pairwise (· < ·))
    (hrange : ∀ m ∈ ns, lo < m ∧ m ≤ k) : ns.length ≤ k - lo := by
  induction ns generalizing lo with
  | nil => exact Nat.zero_le _
  | cons m ns ih =>
    obtain ⟨hfirst, hrest⟩ := List.pairwise_cons.mp h
    obtain ⟨hm, hns⟩ := List.forall_mem_cons.mp hrange
    have hle := ih m hrest fun m' hm' => ⟨hfirst m' hm', (hns m' hm').2⟩
    rw [List.length_cons]
    omega

/-- Of elements that are all near to one another at most `k` have a number up to `k`. -/
theorem length_filter_le (hinner : ∀ a b c, a ≤ b → b ≤ c → near a c → near a b ∧ near b c)
    (prev : Option (T × Nat)) (hsorted : ts.Pairwise (· ≤ ·)) (among : T → Bool)
    (hamong : ∀ a b, among a = true → among b = true → near a b) :
    ((numbered near prev ts).filter fun p => among p.1 && decide (p.2 ≤ k)).length ≤ k := by
  have hincreasing : (((numbered near prev ts).filter fun p =>
      among p.1 && decide (p.2 ≤ k)).map Prod.snd).Pairwise (· < ·) := by
    refine List.pairwise_map.mpr (List.Pairwise.imp_of_mem ?_
      ((pairwise_numbered hinner prev hsorted).filter _))
    intro p q hp hq hlt
    have hp' := (List.mem_filter.mp hp).2
    have hq' := (List.mem_filter.mp hq).2
    rw [Bool.and_eq_true] at hp' hq'
    exact hlt (hamong p.1 q.1 hp'.1 hq'.1)
  rw [← List.length_map Prod.snd]
  refine length_le_of_increasing 0 hincreasing fun m hm => ?_
  obtain ⟨p, hp, rfl⟩ := List.mem_map.mp hm
  obtain ⟨hmem, hcond⟩ := List.mem_filter.mp hp
  exact ⟨pos_of_numbered hmem, of_decide_eq_true ((Bool.and_eq_true _ _).mp hcond).2⟩

end Bound

section Limits

/-- The elements of a streak are numbered on. -/
theorem exists_of_chain (h : (u :: ts).IsChain near) :
    ∃ p ∈ (u, n) :: numbered near (some (u, n)) ts, n + ts.length ≤ p.2 := by
  induction ts generalizing u n with
  | nil => exact ⟨_, List.mem_cons_self, Nat.le_refl n⟩
  | cons t ts ih =>
    obtain ⟨hnear, hchain⟩ := List.isChain_cons_cons.mp h
    obtain ⟨p, hp, hle⟩ := ih (n := n + 1) hchain
    refine ⟨p, List.mem_cons_of_mem _ ?_, by rw [List.length_cons]; omega⟩
    rw [numbered, next_near hnear]
    exact hp

/-- An element ends what has been read, and its number is the length of a streak up to it. -/
def Trails (near : T → T → Prop) (done : List T) (p : T × Nat) : Prop :=
  ∃ streak, (streak ++ [p.1]) <:+ done ∧ (streak ++ [p.1]).IsChain near ∧ streak.length + 1 = p.2

theorem trails_next (t : T) (h : ∀ p ∈ prev, Trails near done p) :
    Trails near (done ++ [t]) (t, next near prev t) := by
  have hnew : next near prev t = 1 → Trails near (done ++ [t]) (t, next near prev t) :=
    fun h => ⟨[], List.suffix_append done [t], List.isChain_singleton t, h.symm⟩
  cases prev with
  | none => exact hnew rfl
  | some q =>
    by_cases hnear : near q.1 t
    · obtain ⟨streak, ⟨front, hfront⟩, hchain, hlength⟩ := h q rfl
      refine ⟨streak ++ [q.1], ⟨front, by rw [← hfront]; simp⟩, ?_, ?_⟩
      · rw [List.append_assoc, List.singleton_append]
        exact List.isChain_split.mpr ⟨hchain, List.isChain_pair.mpr hnear⟩
      · rw [next_near hnear, ← hlength, List.length_append, List.length_singleton]
    · exact hnew (next_apart hnear)

/-- A number is the length of a streak that ends in its element. -/
theorem streak_of_numbered (hdone : ∀ p ∈ prev, Trails near done p) {p : T × Nat}
    (hp : p ∈ numbered near prev ts) :
    ∃ streak, streak <:+: done ++ ts ∧ streak.IsChain near ∧ streak.length = p.2 := by
  induction ts generalizing prev done with
  | nil => exact nomatch hp
  | cons t ts ih =>
    have hstep : Trails near (done ++ [t]) (t, next near prev t) := trails_next t hdone
    obtain rfl | hp := List.mem_cons.mp hp
    · obtain ⟨streak, ⟨front, hfront⟩, hchain, hlength⟩ := hstep
      refine ⟨streak ++ [t], ?_, hchain, by rw [List.length_append]; exact hlength⟩
      exact ⟨front, ts, by rw [hfront]; simp⟩
    · have hnext : ∀ q ∈ some (t, next near prev t), Trails near (done ++ [t]) q := by
        rintro q ⟨⟩
        exact hstep
      obtain ⟨streak, hinfix, hstreak⟩ := ih hnext hp
      exact ⟨streak, by simpa using hinfix, hstreak⟩

/-- The numbers are within a limit exactly if no streak is longer. -/
theorem numbered_le_iff : (∀ p ∈ numbered near none ts, p.2 ≤ k) ↔
    ∀ streak, streak <:+: ts → streak.IsChain near → streak.length ≤ k := by
  constructor
  · rintro h streak ⟨front, back, rfl⟩ hchain
    cases streak with
    | nil => exact Nat.zero_le k
    | cons u streak =>
      have hmem : ∀ p ∈ numbered near ((numbered near none front).getLast?.or none) (u :: streak),
          p.2 ≤ k := by
        intro p hp
        refine h p ?_
        rw [List.append_assoc, numbered_append, numbered_append]
        exact List.mem_append_right _ (List.mem_append_left _ hp)
      obtain ⟨p, hp, hle⟩ := exists_of_chain (n := next near
        ((numbered near none front).getLast?.or none) u) hchain
      have hpos : 1 ≤ next near ((numbered near none front).getLast?.or none) u := next_pos
      have hk := hmem p hp
      rw [List.length_cons]
      omega
  · intro h p hp
    have hdone : ∀ q ∈ (none : Option (T × Nat)), Trails near [] q := fun q hq => nomatch hq
    obtain ⟨streak, hinfix, hchain, hlength⟩ := streak_of_numbered hdone hp
    exact hlength ▸ h streak hinfix hchain

end Limits

end RivicQ.Lib.Streaks

namespace RivicQ.Lib.Stretches

variable {α : Type} (p : α → Bool)

/-- The stretch that ends before a position, if there is one. -/
def ending (pos : Nat) (cur : List α) : List (Nat × List α) :=
  if cur = [] then [] else [(pos - cur.length, cur)]

/-- Go on with the stretch that has been read up to a position. -/
def stretchesFrom (pos : Nat) (cur : List α) : List α → List (Nat × List α)
  | [] => ending pos cur
  | c :: s =>
    if p c then stretchesFrom (pos + 1) (cur ++ [c]) s
    else ending pos cur ++ stretchesFrom (pos + 1) [] s

/-- The stretches of a list over which a predicate holds, each with its position. -/
def stretches (s : List α) : List (Nat × List α) := stretchesFrom p 0 [] s

/-- A stretch that does not go on at either of its ends. -/
structure Maximal (s : List α) (pos : Nat) (r : List α) : Prop where
  ne_nil : r ≠ []
  holds : ∀ c ∈ r, p c = true
  ends : ∃ a b, s = a ++ (r ++ b) ∧ a.length = pos ∧ (∀ c ∈ a.getLast?, p c = false) ∧
    ∀ c ∈ b.head?, p c = false

section Positions

variable {p} {c : α} {cur s r : List α} {i base pos q : Nat}

theorem front_nil {a t : List α} (hcur : ∀ c ∈ a ++ t, p c = true)
    (hlast : ∀ c ∈ a.getLast?, p c = false) : a = [] := by
  cases hgetLast : a.getLast? with
  | none => exact List.getLast?_eq_none_iff.mp hgetLast
  | some d =>
    have hd := hcur d (List.mem_append_left t (List.mem_of_getLast? hgetLast))
    rw [hlast d hgetLast] at hd
    cases hd

theorem back_nil {u t : List α} (hcur : ∀ c ∈ u, p c = true)
    (hhead : ∀ c ∈ (u ++ t).head?, p c = false) : u = [] := by
  cases u with
  | nil => rfl
  | cons d u =>
    have hd := hcur d List.mem_cons_self
    rw [hhead d rfl] at hd
    cases hd

theorem maximal_all (hcur : ∀ c ∈ cur, p c = true) :
    Maximal p cur i r ↔ cur ≠ [] ∧ i = 0 ∧ r = cur := by
  constructor
  · rintro ⟨hne, -, a, b, rfl, rfl, hlast, hhead⟩
    obtain rfl := front_nil hcur hlast
    have hb : b = [] := back_nil (t := [])
      (fun c hc => hcur c (List.mem_append_right r hc)) (by rwa [List.append_nil])
    subst hb
    exact ⟨by simpa using hne, rfl, by simp⟩
  · rintro ⟨hne, rfl, rfl⟩
    exact ⟨hne, hcur, [], [], by simp, rfl, nofun, nofun⟩

/-- What is last behind a cut is last in the whole list. -/
theorem last_behind_iff {a : List α} (hc : p c = false) :
    (∀ d ∈ (cur ++ c :: a).getLast?, p d = false) ↔ ∀ d ∈ a.getLast?, p d = false := by
  rw [List.getLast?_append, List.getLast?_cons]
  cases a.getLast? with
  | none => exact iff_of_true (fun d hd => Option.some.inj hd ▸ hc) nofun
  | some e => rfl

/-- A stretch that begins before a cut ends before it. -/
theorem stretch_before_cut {b t : List α} (hholds : ∀ d ∈ r, p d = true) (hc : p c = false)
    (h : r ++ b = t ++ c :: s) : ∃ u, t = r ++ u ∧ b = u ++ c :: s := by
  obtain ⟨u, rfl, hu⟩ | ⟨u, rfl, hu⟩ := List.append_eq_append_iff.mp h
  · exact ⟨u, rfl, hu⟩
  · cases u with
    | nil => exact ⟨[], by simp, hu.symm⟩
    | cons d u =>
      obtain ⟨rfl, -⟩ := List.cons.inj hu
      rw [hholds c (List.mem_append_right t List.mem_cons_self)] at hc
      cases hc

/-- Where the predicate fails, a stretch ends, and the next one is behind. -/
theorem maximal_cut (hcur : ∀ c ∈ cur, p c = true) (hc : p c = false) :
    Maximal p (cur ++ c :: s) i r ↔
      (cur ≠ [] ∧ i = 0 ∧ r = cur) ∨ ∃ j, i = cur.length + 1 + j ∧ Maximal p s j r := by
  constructor
  · rintro ⟨hne, hholds, a, b, h, rfl, hlast, hhead⟩
    obtain ⟨t, rfl, ht⟩ | ⟨t, rfl, ht⟩ := List.append_eq_append_iff.mp h
    · right
      cases t with
      | nil =>
        obtain ⟨d, r, rfl⟩ := List.exists_cons_of_ne_nil hne
        obtain ⟨rfl, -⟩ := List.cons.inj ht
        rw [hholds c List.mem_cons_self] at hc
        cases hc
      | cons d t =>
        obtain ⟨rfl, rfl⟩ := List.cons.inj ht
        have hlength : (cur ++ c :: t).length = cur.length + 1 + t.length := by
          rw [List.length_append, List.length_cons]
          omega
        exact ⟨t.length, hlength, hne, hholds, t, b, rfl, rfl, (last_behind_iff hc).mp hlast, hhead⟩
    · left
      obtain ⟨u, rfl, rfl⟩ := stretch_before_cut hholds hc ht
      have hnext : ∀ d ∈ u.head?, p d = false := fun d hd =>
        hhead d (List.mem_head?_append_of_mem_head? hd)
      exact (maximal_all hcur).mp ⟨hne, hholds, a, u, rfl, rfl, hlast, hnext⟩
  · rintro (⟨hne, rfl, rfl⟩ | ⟨j, rfl, hne, hholds, a, b, rfl, rfl, hlast, hhead⟩)
    · refine ⟨hne, hcur, [], c :: s, rfl, rfl, nofun, ?_⟩
      rintro d ⟨⟩
      exact hc
    · have hlength : (cur ++ c :: a).length = cur.length + 1 + a.length := by
        rw [List.length_append, List.length_cons]
        omega
      exact ⟨hne, hholds, cur ++ c :: a, b, by simp, hlength, (last_behind_iff hc).mpr hlast, hhead⟩

theorem mem_ending : (q, r) ∈ ending pos cur ↔ cur ≠ [] ∧ q = pos - cur.length ∧ r = cur := by
  unfold ending
  split_ifs with h
  · exact iff_of_false List.not_mem_nil fun hcur => hcur.1 h
  · rw [List.mem_singleton, Prod.mk.injEq]
    exact (and_iff_right h).symm

theorem mem_stretchesFrom (base : Nat) (hcur : ∀ c ∈ cur, p c = true) (hpos : base + cur.length = pos) :
    (q, r) ∈ stretchesFrom p pos cur s ↔ ∃ i, q = base + i ∧ Maximal p (cur ++ s) i r := by
  induction s generalizing base pos cur with
  | nil =>
    rw [stretchesFrom, mem_ending, List.append_nil]
    simp only [maximal_all hcur]
    constructor
    · rintro ⟨hne, hq, hr⟩
      exact ⟨0, by omega, hne, rfl, hr⟩
    · rintro ⟨i, hq, hne, rfl, hr⟩
      exact ⟨hne, by omega, hr⟩
  | cons c s ih =>
    rw [stretchesFrom]
    by_cases hc : p c = true
    · have hcur' : ∀ d ∈ cur ++ [c], p d = true := by
        intro d hd
        obtain hd | hd := List.mem_append.mp hd
        · exact hcur d hd
        · exact List.mem_singleton.mp hd ▸ hc
      rw [if_pos hc, ih base hcur' (by rw [List.length_append, List.length_singleton]; omega),
        List.append_assoc, List.singleton_append]
    · rw [if_neg hc, List.mem_append, mem_ending,
        ih (pos + 1) (fun d hd => absurd hd List.not_mem_nil) (Nat.add_zero _)]
      simp only [maximal_cut hcur (Bool.eq_false_iff.mpr hc), List.nil_append]
      constructor
      · rintro (⟨hne, hq, hr⟩ | ⟨i, hq, hmax⟩)
        · exact ⟨0, by omega, .inl ⟨hne, rfl, hr⟩⟩
        · exact ⟨cur.length + 1 + i, by omega, .inr ⟨i, rfl, hmax⟩⟩
      · rintro ⟨i, hq, ⟨hne, rfl, hr⟩ | ⟨j, rfl, hmax⟩⟩
        · exact .inl ⟨hne, by omega, hr⟩
        · exact .inr ⟨j, by omega, hmax⟩

/-- The stretches are the maximal ones. -/
theorem mem_stretches : (q, r) ∈ stretches p s ↔ Maximal p s q r := by
  have hmem : (q, r) ∈ stretchesFrom p 0 [] s ↔ ∃ i, q = 0 + i ∧ Maximal p ([] ++ s) i r :=
    mem_stretchesFrom 0 (fun c hc => absurd hc List.not_mem_nil) rfl
  refine hmem.trans ?_
  constructor
  · rintro ⟨i, rfl, hmax⟩
    rwa [Nat.zero_add]
  · intro hmax
    exact ⟨q, (Nat.zero_add q).symm, hmax⟩

theorem pairwise_stretchesFrom (hlength : cur.length ≤ pos) :
    (stretchesFrom p pos cur s).Pairwise (fun x y => x.1 < y.1) ∧
      ∀ x ∈ stretchesFrom p pos cur s, pos - cur.length ≤ x.1 := by
  have hending : ∀ (cur' : List α) pos', ∀ x ∈ ending pos' cur', x.1 = pos' - cur'.length := by
    rintro cur' pos' ⟨q, r⟩ hx
    exact (mem_ending.mp hx).2.1
  have hsingle : ∀ (cur' : List α) pos', (ending pos' cur').Pairwise fun x y => x.1 < y.1 := by
    intro cur' pos'
    unfold ending
    split_ifs
    · exact List.Pairwise.nil
    · exact List.pairwise_singleton _ _
  induction s generalizing pos cur with
  | nil => exact ⟨hsingle cur pos, fun x hx => (hending cur pos x hx).ge⟩
  | cons c s ih =>
    rw [stretchesFrom]
    split_ifs
    · have hlength' : (cur ++ [c]).length ≤ pos + 1 := by
        rw [List.length_append, List.length_singleton]
        omega
      obtain ⟨hpairwise, hle⟩ := ih hlength'
      refine ⟨hpairwise, fun x hx => ?_⟩
      have hx' := hle x hx
      rw [List.length_append, List.length_singleton] at hx'
      omega
    · have hnil : ([] : List α).length ≤ pos + 1 := Nat.zero_le _
      obtain ⟨hpairwise, hle⟩ := ih hnil
      rw [List.length_nil] at hle
      refine ⟨List.pairwise_append.mpr ⟨hsingle cur pos, hpairwise, fun x hx y hy => ?_⟩, ?_⟩
      · have hx' := hending cur pos x hx
        have hy' := hle y hy
        omega
      · intro x hx
        obtain hx | hx := List.mem_append.mp hx
        · exact (hending cur pos x hx).ge
        · have hx' := hle x hx
          omega

/-- The stretches are in the order of their positions. -/
theorem pairwise_stretches : (stretches p s).Pairwise fun x y => x.1 < y.1 :=
  (pairwise_stretchesFrom (Nat.zero_le _)).1

end Positions

end RivicQ.Lib.Stretches
