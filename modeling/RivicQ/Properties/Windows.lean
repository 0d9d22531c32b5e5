import Mathlib.Data.Finset.Card
import RivicQ.Shared.Webhooks

namespace RivicQ.Properties.Windows

open RivicQ.Lib.Tables RivicQ.Shared.DeliveryCache

section Eviction

variable {seen : Table DeliveryCacheEntry}

/-- Among entries with a key, the fold ends at one with the lowest number. -/
theorem foldl_oldest {entries : List (Sigma fun _ : String => DeliveryCacheEntry)}
    (hkeys : ∀ e ∈ entries, e.1 ≠ "") (k₀ : String) (s₀ : Nat) (h₀ : k₀ ≠ "" ∨ entries ≠ []) :
    let r := entries.foldl (fun oldest e =>
      if oldest.1 = "" || e.2.seq < oldest.2 then (e.1, e.2.seq) else oldest) (k₀, s₀)
    r.1 ≠ "" ∧ ((k₀ ≠ "" ∧ r = (k₀, s₀)) ∨ ∃ e ∈ entries, r = (e.1, e.2.seq)) ∧
      (k₀ ≠ "" → r.2 ≤ s₀) ∧ ∀ e ∈ entries, r.2 ≤ e.2.seq := by
  induction entries generalizing k₀ s₀ with
  | nil =>
    have hk₀ := h₀.resolve_right fun h => h rfl
    exact ⟨hk₀, .inl ⟨hk₀, rfl⟩, fun _ => le_rfl, fun e he => nomatch he⟩
  | cons e entries ih =>
    obtain ⟨he, hkeys⟩ := List.forall_mem_cons.mp hkeys
    rw [List.foldl_cons]
    by_cases htake : k₀ = "" ∨ e.2.seq < s₀
    · have hif : (decide (k₀ = "") || decide (e.2.seq < s₀)) = true := by simpa using htake
      rw [if_pos hif]
      obtain ⟨hne, hfrom, hle, hall⟩ := ih hkeys e.1 e.2.seq (.inl he)
      refine ⟨hne, .inr ?_, fun hk₀ => ?_, List.forall_mem_cons.mpr ⟨hle he, hall⟩⟩
      · obtain ⟨-, h⟩ | ⟨e', he', h⟩ := hfrom
        · exact ⟨e, List.mem_cons_self, h⟩
        · exact ⟨e', List.mem_cons_of_mem e he', h⟩
      · have hlt := htake.resolve_left hk₀
        have := hle he
        omega
    · obtain ⟨hk₀, hge⟩ := not_or.mp htake
      have hif : ¬ (decide (k₀ = "") || decide (e.2.seq < s₀)) = true := by
        simpa using ⟨hk₀, Nat.not_lt.mp hge⟩
      rw [if_neg hif]
      obtain ⟨hne, hfrom, hle, hall⟩ := ih hkeys k₀ s₀ (.inl hk₀)
      refine ⟨hne, hfrom.imp_right ?_, hle, List.forall_mem_cons.mpr ⟨?_, hall⟩⟩
      · rintro ⟨e', he', h⟩
        exact ⟨e', List.mem_cons_of_mem e he', h⟩
      · have := hle hk₀
        omega

/-- The oldest key of a table is one of its keys, and no entry is older. -/
theorem oldestKey_spec (hkeys : ∀ k ∈ seen.keys, k ≠ "") (hne : seen.keys ≠ []) :
    oldestKey seen ≠ "" ∧ ∃ entry, seen.lookup (oldestKey seen) = some entry ∧
      ∀ k entry', seen.lookup k = some entry' → entry.seq ≤ entry'.seq := by
  have hentries : seen.entries ≠ [] := fun h => hne (by rw [AList.keys, List.keys, h]; rfl)
  have hnonempty : ∀ e ∈ seen.entries, e.1 ≠ "" := fun e he =>
    hkeys e.1 (List.mem_map_of_mem (f := Sigma.fst) he)
  obtain ⟨hkey, hfrom, -, hall⟩ := foldl_oldest hnonempty "" 0 (.inr hentries)
  obtain ⟨h, -⟩ | ⟨e, he, h⟩ := hfrom
  · exact absurd rfl h
  refine ⟨hkey, e.2, ?_, fun k entry' hk => ?_⟩
  · have hold : oldestKey seen = e.1 := congrArg Prod.fst h
    rw [hold]
    exact AList.mem_lookup_iff.mpr he
  · have hle := hall ⟨k, entry'⟩ (AList.mem_lookup_iff.mp hk)
    rwa [h] at hle

end Eviction

/-- A call of `rememberFor`, and what the clock shows then. -/
structure Call where
  id : String
  ttl : Duration
  now : Time

def step (d : DeliveryCache) (c : Call) : DeliveryCache := (rememberFor c.id c.ttl c.now d).2

def run (d : DeliveryCache) (calls : List Call) : DeliveryCache := calls.foldl step d

def Accepts (d : DeliveryCache) (c : Call) : Prop := (rememberFor c.id c.ttl c.now d).1 = true

instance (d : DeliveryCache) (c : Call) : Decidable (Accepts d c) :=
  inferInstanceAs (Decidable (_ = true))

/-- The ids that calls are accepted for. -/
def admitted (d : DeliveryCache) : List Call → List String
  | [] => []
  | c :: calls =>
    if Accepts d c then c.id :: admitted (step d c) calls else admitted (step d c) calls

/-- How many other ids calls are accepted for. -/
def others (id : String) (d : DeliveryCache) (calls : List Call) : Nat :=
  ((admitted d calls).toFinset.erase id).card

section Steps

variable {d : DeliveryCache} {c : Call}

theorem accepts_iff (hid : c.id ≠ "") :
    Accepts d c ↔ ¬ Holds (window c.ttl d) c.now c.id d := by
  rw [Accepts, rememberFor_eq, rememberWithin_new]
  exact ⟨fun h => h.resolve_left hid, .inr⟩

/-- A call whose id is held only prunes. -/
theorem step_held (hid : c.id ≠ "") (h : ¬ Accepts d c) :
    step d c = { d with seen := retain (fresh (window c.ttl d) c.now) d.seen } := by
  have hheld := not_not.mp (mt (accepts_iff hid).mpr h)
  rw [holds_iff] at hheld
  rw [step, rememberFor_eq, rememberWithin, if_neg hid]
  simp only [if_pos hheld]

/-- A call whose id is new prunes, makes room and adds an entry. -/
theorem step_new (hid : c.id ≠ "") (h : Accepts d c) :
    step d c = { d with
      seen := (evict d.max (retain (fresh (window c.ttl d) c.now) d.seen)).insert c.id
        { seenAt := c.now, seq := d.seq + 1 }
      seq := d.seq + 1 } := by
  have hnew := (accepts_iff hid).mp h
  rw [holds_iff] at hnew
  rw [step, rememberFor_eq, rememberWithin, if_neg hid]
  simp only [if_neg hnew]

@[simp] theorem step_max : (step d c).max = d.max := by
  rw [step, rememberFor_eq, rememberWithin]
  split
  · rfl
  dsimp only
  split <;> rfl

@[simp] theorem step_ttl : (step d c).ttl = d.ttl := by
  rw [step, rememberFor_eq, rememberWithin]
  split
  · rfl
  dsimp only
  split <;> rfl

@[simp] theorem window_step (ttl : Duration) : window ttl (step d c) = window ttl d := by
  rw [window, window, step_ttl]

@[simp] theorem run_max (calls : List Call) : (run d calls).max = d.max := by
  induction calls generalizing d with
  | nil => rfl
  | cons c calls ih => exact ih.trans step_max

@[simp] theorem window_run (ttl : Duration) (calls : List Call) :
    window ttl (run d calls) = window ttl d := by
  induction calls generalizing d with
  | nil => rfl
  | cons c calls ih => exact ih.trans (window_step ttl)

theorem run_append (calls calls' : List Call) : run d (calls ++ calls') = run (run d calls) calls' :=
  List.foldl_append

theorem lookup_evict {max : Nat} {seen : Table DeliveryCacheEntry} {k : String}
    {entry : DeliveryCacheEntry} (h : (evict max seen).lookup k = some entry) :
    seen.lookup k = some entry := by
  unfold evict at h
  split_ifs at h
  · rw [lookup_erase_if] at h
    split_ifs at h
    exact h
  · exact h
  · exact h

theorem lookup_pruned {k : String} {entry : DeliveryCacheEntry} {ttl : Duration} {now : Time} :
    (retain (fresh ttl now) d.seen).lookup k = some entry ↔
      d.seen.lookup k = some entry ∧ now - entry.seenAt ≤ ttl := by
  rw [lookup_retain, Option.filter_eq_some_iff]
  exact and_congr_right fun _ => decide_eq_true_iff

/-- An entry after a call is the one of the call, or an older one that the call's window spares. -/
theorem lookup_step (hid : c.id ≠ "") {k : String} {entry : DeliveryCacheEntry}
    (h : (step d c).seen.lookup k = some entry) :
    (Accepts d c ∧ k = c.id ∧ entry = ⟨c.now, d.seq + 1⟩) ∨
      (d.seen.lookup k = some entry ∧ c.now - entry.seenAt ≤ window c.ttl d) := by
  by_cases haccept : Accepts d c
  · rw [step_new hid haccept, lookup_insert_if] at h
    split_ifs at h with hk
    · exact .inl ⟨haccept, hk, (Option.some.inj h).symm⟩
    · exact .inr (lookup_pruned.mp (lookup_evict h))
  · rw [step_held hid haccept] at h
    exact .inr (lookup_pruned.mp h)

end Steps

/-- The cache is no larger than it may be, and its entries are numbered in turn. -/
structure Kept (d : DeliveryCache) : Prop where
  room : d.seen.keys.length ≤ d.max
  named : ∀ {k entry}, d.seen.lookup k = some entry → k ≠ ""
  seq : ∀ {k entry}, d.seen.lookup k = some entry → entry.seq ≤ d.seq
  unique : ∀ {k k' entry entry'}, d.seen.lookup k = some entry → d.seen.lookup k' = some entry' →
    entry.seq = entry'.seq → k = k'

section Capacity

variable {d : DeliveryCache} {c : Call}

theorem exists_lookup {seen : Table DeliveryCacheEntry} {k : String} (h : k ∈ seen.keys) :
    ∃ entry, seen.lookup k = some entry :=
  Option.isSome_iff_exists.mp (AList.lookup_isSome.mpr (AList.mem_keys.mp h))

theorem mem_keys_of_lookup {seen : Table DeliveryCacheEntry} {k : String}
    {entry : DeliveryCacheEntry} (h : seen.lookup k = some entry) : k ∈ seen.keys :=
  AList.mem_keys.mpr (AList.lookup_isSome.mp (Option.isSome_iff_exists.mpr ⟨entry, h⟩))

/-- Where there is no room, the oldest entry goes. -/
theorem evict_full {max : Nat} {seen : Table DeliveryCacheEntry} (hmax : 1 ≤ max)
    (hnamed : ∀ k ∈ seen.keys, k ≠ "") (hfull : max ≤ seen.keys.length) :
    evict max seen = seen.erase (oldestKey seen) ∧ oldestKey seen ∈ seen.keys ∧
      ∃ entry, seen.lookup (oldestKey seen) = some entry ∧
        ∀ k entry', seen.lookup k = some entry' → entry.seq ≤ entry'.seq := by
  have hne : seen.keys ≠ [] := by
    rintro hnil
    rw [hnil, List.length_nil] at hfull
    omega
  obtain ⟨hkey, entry, hlookup, hold⟩ := oldestKey_spec hnamed hne
  refine ⟨?_, mem_keys_of_lookup hlookup, entry, hlookup, hold⟩
  rw [evict, if_pos hfull, if_pos hkey]

theorem length_evict {max : Nat} {seen : Table DeliveryCacheEntry} (hmax : 1 ≤ max)
    (hnamed : ∀ k ∈ seen.keys, k ≠ "") (hroom : seen.keys.length ≤ max) :
    (evict max seen).keys.length + 1 ≤ max := by
  by_cases hfull : max ≤ seen.keys.length
  · obtain ⟨heq, hmem, -⟩ := evict_full hmax hnamed hfull
    rw [heq, AList.keys_erase, List.length_erase_of_mem hmem]
    omega
  · rw [evict, if_neg hfull]
    omega

theorem length_pruned (ttl : Duration) (now : Time) :
    (retain (fresh ttl now) d.seen).keys.length ≤ d.seen.keys.length :=
  (List.filter_sublist.map Sigma.fst).length_le

theorem named_pruned (hd : Kept d) (ttl : Duration) (now : Time) :
    ∀ k ∈ (retain (fresh ttl now) d.seen).keys, k ≠ "" := by
  intro k hk
  obtain ⟨entry, hentry⟩ := exists_lookup hk
  exact hd.named (lookup_pruned.mp hentry).1

theorem length_step (hd : Kept d) (hmax : 1 ≤ d.max) (hid : c.id ≠ "") :
    (step d c).seen.keys.length ≤ d.max := by
  have hpruned := (length_pruned (window c.ttl d) c.now).trans hd.room
  by_cases haccept : Accepts d c
  · rw [step_new hid haccept, AList.keys_insert, List.length_cons]
    have hevict := length_evict hmax (named_pruned hd (window c.ttl d) c.now) hpruned
    exact (Nat.succ_le_succ List.length_erase_le).trans hevict
  · rw [step_held hid haccept]
    exact hpruned

theorem kept_step (hd : Kept d) (hmax : 1 ≤ d.max) (hid : c.id ≠ "") : Kept (step d c) := by
  have hseq : d.seq ≤ (step d c).seq := by
    by_cases haccept : Accepts d c
    · rw [step_new hid haccept]
      exact Nat.le_succ _
    · rw [step_held hid haccept]
  refine ⟨step_max (d := d) (c := c) ▸ length_step hd hmax hid, ?_, ?_, ?_⟩
  · intro k entry h
    obtain ⟨-, rfl, -⟩ | ⟨h, -⟩ := lookup_step hid h
    · exact hid
    · exact hd.named h
  · intro k entry h
    obtain ⟨haccept, -, rfl⟩ | ⟨h, -⟩ := lookup_step hid h
    · rw [step_new hid haccept]
    · exact (hd.seq h).trans hseq
  · intro k k' entry entry' h h' heq
    obtain ⟨-, rfl, rfl⟩ | ⟨h, -⟩ := lookup_step hid h <;>
      obtain ⟨-, rfl, rfl⟩ | ⟨h', -⟩ := lookup_step hid h'
    · rfl
    · have := hd.seq h'
      simp only at heq
      omega
    · have := hd.seq h
      simp only at heq
      omega
    · exact hd.unique h h' heq

theorem kept_run (hd : Kept d) (hmax : 1 ≤ d.max) {calls : List Call}
    (hids : ∀ c ∈ calls, c.id ≠ "") : Kept (run d calls) := by
  induction calls generalizing d with
  | nil => exact hd
  | cons c calls ih =>
    obtain ⟨hid, hids⟩ := List.forall_mem_cons.mp hids
    exact ih (kept_step hd hmax hid) (step_max (d := d) ▸ hmax) hids

theorem kept_new (ttl : Duration) (max : Int) : Kept (newDeliveryCache ttl max) := by
  have hnone : ∀ {k : String} {entry : DeliveryCacheEntry},
      (newDeliveryCache ttl max).seen.lookup k = some entry → False := fun h => nomatch h
  exact ⟨Nat.zero_le _, fun h => (hnone h).elim, fun h => (hnone h).elim, fun h => (hnone h).elim⟩

end Capacity

/-- The cache holds the entry of an accepted call, and every later entry is of one of the ids
that were accepted since. -/
structure Tracked (id : String) (t : Time) (seq : Nat) (ids : List String) (d : DeliveryCache) :
    Prop where
  entry : d.seen.lookup id = some ⟨t, seq⟩
  later : ∀ {k entry}, d.seen.lookup k = some entry → seq < entry.seq → k ∈ ids

section Tracking

variable {d : DeliveryCache} {c : Call} {id : String} {t : Time} {seq : Nat} {ids : List String}

theorem tracked_accepted (hd : Kept d) (hid : c.id ≠ "") (haccept : Accepts d c) :
    Tracked c.id c.now (d.seq + 1) [] (step d c) := by
  refine ⟨?_, fun {k entry} h hlater => ?_⟩
  · rw [step_new hid haccept, lookup_insert_if, if_pos rfl]
  · obtain ⟨-, -, rfl⟩ | ⟨h, -⟩ := lookup_step hid h
    · exact absurd hlater (Nat.lt_irrefl _)
    · have := hd.seq h
      omega

/-- The tracked entry makes room only when enough other ids were accepted since. -/
theorem card_of_evicted (hd : Kept d) (hmax : 1 ≤ d.max) (htracked : Tracked id t seq ids d)
    {ttl : Duration} {now : Time} (hin : now - t ≤ ttl) {k : String} (hk : k ≠ id)
    (hnew : (retain (fresh ttl now) d.seen).lookup k = none)
    (hgone : (evict d.max (retain (fresh ttl now) d.seen)).lookup id ≠ some ⟨t, seq⟩) :
    d.max ≤ ((k :: ids).toFinset.erase id).card := by
  have hentry : (retain (fresh ttl now) d.seen).lookup id = some ⟨t, seq⟩ :=
    lookup_pruned.mpr ⟨htracked.entry, hin⟩
  generalize hseen : retain (fresh ttl now) d.seen = seen at *
  have hfull : d.max ≤ seen.keys.length := by
    by_contra hroom
    rw [evict, if_neg hroom] at hgone
    exact hgone hentry
  have hnamed : ∀ k ∈ seen.keys, k ≠ "" := hseen ▸ named_pruned hd ttl now
  obtain ⟨heq, -, entry, hentry', hleast⟩ := evict_full hmax hnamed hfull
  have hold : id = oldestKey seen := by
    by_contra hne
    rw [heq, lookup_erase_if, if_neg hne] at hgone
    exact hgone hentry
  rw [← hold, hentry] at hentry'
  cases hentry'
  -- what else the cache holds is newer, so it was accepted since
  have hsince : ∀ k' ∈ seen.keys, k' ≠ id → k' ∈ ids := by
    intro k' hk' hne
    obtain ⟨entry, hlookup⟩ := exists_lookup hk'
    have hle := hleast k' entry hlookup
    rw [← hseen] at hlookup
    have hheld := (lookup_pruned.mp hlookup).1
    refine htracked.later hheld (Nat.lt_of_le_of_ne hle fun hsame => hne ?_)
    exact hd.unique hheld htracked.entry hsame.symm
  have hsub : insert k (seen.keys.toFinset.erase id) ⊆ (k :: ids).toFinset.erase id := by
    intro k' hk'
    rw [Finset.mem_erase, List.mem_toFinset, List.mem_cons]
    obtain rfl | hk' := Finset.mem_insert.mp hk'
    · exact ⟨hk, .inl rfl⟩
    · obtain ⟨hne, hmem⟩ := Finset.mem_erase.mp hk'
      exact ⟨hne, .inr (hsince k' (List.mem_toFinset.mp hmem) hne)⟩
  have hout : k ∉ seen.keys.toFinset.erase id := by
    intro hk'
    obtain ⟨entry, hlookup⟩ := exists_lookup (List.mem_toFinset.mp (Finset.mem_erase.mp hk').2)
    rw [hnew] at hlookup
    cases hlookup
  have hcard := Finset.card_le_card hsub
  have hmem : id ∈ seen.keys.toFinset := List.mem_toFinset.mpr (mem_keys_of_lookup hentry)
  rw [Finset.card_insert_of_notMem hout, Finset.card_erase_of_mem hmem,
    List.toFinset_card_of_nodup seen.keys_nodup] at hcard
  omega

theorem tracked_step (hd : Kept d) (hmax : 1 ≤ d.max) (hid : c.id ≠ "")
    (htracked : Tracked id t seq ids d) (hcovers : c.now ≤ t + window c.ttl d)
    (hfew : ((ids ++ admitted d [c]).toFinset.erase id).card < d.max) :
    Tracked id t seq (ids ++ admitted d [c]) (step d c) := by
  have hin : c.now - t ≤ window c.ttl d := Int.sub_left_le_of_le_add hcovers
  by_cases haccept : Accepts d c
  · have hadmitted : admitted d [c] = [c.id] := by simp only [admitted, if_pos haccept]
    rw [hadmitted] at hfew ⊢
    have hnew := (accepts_iff hid).mp haccept
    have hother : c.id ≠ id := by
      intro hsame
      exact hnew ⟨⟨t, seq⟩, hsame ▸ htracked.entry, hin⟩
    have hmissing : (retain (fresh (window c.ttl d) c.now) d.seen).lookup c.id = none := by
      refine Option.eq_none_iff_forall_ne_some.mpr fun entry hentry => hnew ?_
      exact ⟨entry, lookup_pruned.mp hentry⟩
    have hstays : (evict d.max (retain (fresh (window c.ttl d) c.now) d.seen)).lookup id =
        some ⟨t, seq⟩ := by
      by_contra hgone
      have hmany := card_of_evicted hd hmax htracked hin hother hmissing hgone
      have hsame : (c.id :: ids).toFinset = (ids ++ [c.id]).toFinset := by
        ext k
        simp only [List.toFinset_cons, List.toFinset_append, Finset.mem_insert, Finset.mem_union,
          List.toFinset_nil, Finset.notMem_empty, or_false]
        exact or_comm
      rw [hsame] at hmany
      omega
    refine ⟨?_, fun {k entry} h hlater => ?_⟩
    · rw [step_new hid haccept, lookup_insert_if, if_neg hother.symm, hstays]
    · obtain ⟨-, rfl, -⟩ | ⟨h, -⟩ := lookup_step hid h
      · exact List.mem_append_right _ List.mem_cons_self
      · exact List.mem_append_left _ (htracked.later h hlater)
  · have hadmitted : admitted d [c] = [] := by simp only [admitted, if_neg haccept]
    rw [hadmitted, List.append_nil]
    refine ⟨?_, fun {k entry} h hlater => ?_⟩
    · rw [step_held hid haccept]
      exact lookup_pruned.mpr ⟨htracked.entry, hin⟩
    · obtain ⟨haccept', -, -⟩ | ⟨h, -⟩ := lookup_step hid h
      · exact absurd haccept' haccept
      · exact htracked.later h hlater

theorem admitted_cons (calls : List Call) :
    admitted d (c :: calls) = admitted d [c] ++ admitted (step d c) calls := by
  simp only [admitted]
  split_ifs <;> rfl

theorem admitted_append (calls calls' : List Call) :
    admitted d (calls ++ calls') = admitted d calls ++ admitted (run d calls) calls' := by
  induction calls generalizing d with
  | nil => rfl
  | cons c calls ih =>
    rw [List.cons_append, admitted_cons (calls ++ calls'), ih, admitted_cons calls,
      List.append_assoc]
    rfl

/-- The entry stays as long as every call's window reaches back to it and few other ids are
accepted. -/
theorem tracked_run (hd : Kept d) (hmax : 1 ≤ d.max) {calls : List Call}
    (hids : ∀ c ∈ calls, c.id ≠ "") (htracked : Tracked id t seq ids d)
    (hcovers : ∀ c ∈ calls, c.now ≤ t + window c.ttl d)
    (hfew : ((ids ++ admitted d calls).toFinset.erase id).card < d.max) :
    Tracked id t seq (ids ++ admitted d calls) (run d calls) := by
  induction calls generalizing d ids with
  | nil => rwa [admitted, List.append_nil]
  | cons c calls ih =>
    obtain ⟨hid, hids⟩ := List.forall_mem_cons.mp hids
    obtain ⟨hcover, hcovers⟩ := List.forall_mem_cons.mp hcovers
    rw [admitted_cons, ← List.append_assoc] at hfew ⊢
    have hsub : (ids ++ admitted d [c]).toFinset ⊆
        (ids ++ admitted d [c] ++ admitted (step d c) calls).toFinset := by
      rw [List.toFinset_append (l := ids ++ admitted d [c])]
      exact Finset.subset_union_left
    have hfirst := (Finset.card_le_card (Finset.erase_subset_erase id hsub)).trans_lt hfew
    refine ih (kept_step hd hmax hid) (step_max (d := d) ▸ hmax) hids
      (tracked_step hd hmax hid htracked hcover hfirst) (fun c' hc' => ?_) (step_max (d := d) ▸ hfew)
    rw [window_step]
    exact hcovers c' hc'

/-- While an id is not accepted again, its entry can only go. -/
theorem lookup_run {calls : List Call} (hids : ∀ c ∈ calls, c.id ≠ "")
    (hnot : id ∉ admitted d calls) {entry : DeliveryCacheEntry}
    (h : (run d calls).seen.lookup id = some entry) :
    d.seen.lookup id = some entry ∧ ∀ c ∈ calls, c.now - entry.seenAt ≤ window c.ttl d := by
  induction calls generalizing d with
  | nil => exact ⟨h, fun c hc => nomatch hc⟩
  | cons c calls ih =>
    obtain ⟨hid, hids⟩ := List.forall_mem_cons.mp hids
    rw [admitted_cons, List.mem_append, not_or] at hnot
    obtain ⟨hstep, hrest⟩ := ih hids hnot.2 h
    obtain ⟨haccept, rfl, -⟩ | ⟨hlookup, hin⟩ := lookup_step hid hstep
    · refine absurd ?_ hnot.1
      simp only [admitted, if_pos haccept, List.mem_cons, true_or]
    · refine ⟨hlookup, List.forall_mem_cons.mpr ⟨hin, fun c' hc' => ?_⟩⟩
      rw [← window_step (c := c)]
      exact hrest c' hc'

end Tracking

section Repeats

variable (d : DeliveryCache) (calls : List Call)

/-- A call of a run is accepted and a later one for its id comes within the later one's window,
with too few other ids accepted in between to push the first one out. -/
structure Repeats (before : List Call) (c : Call) (between : List Call) (c' : Call) : Prop where
  order : ∃ rest, calls = before ++ c :: (between ++ c' :: rest)
  same : c'.id = c.id
  accepted : Accepts (run d before) c
  within : c'.now ≤ c.now + window c'.ttl d
  few : others c.id (run d (before ++ [c])) between < d.max

/-- No repeat is accepted, and the cache never outgrows its capacity. -/
structure Windowed : Prop where
  bounded : ∀ before, before <+: calls → (run d before).seen.keys.length ≤ d.max
  refused : ∀ before c between c', Repeats d calls before c between c' →
    ¬ Accepts (run d (before ++ c :: between)) c'

/-- From the last time an id is accepted up to a repeat, no call is made with a window that has
run out since. -/
def Covered : Prop :=
  ∀ before c between c', Repeats d calls before c between c' →
    c.id ∉ admitted (run d (before ++ [c])) between → ∀ m ∈ between, m.now ≤ c.now + window m.ttl d

variable {d calls} {before between : List Call} {c c' : Call}

theorem run_concat : run d (before ++ c :: between) = run (run d (before ++ [c])) between := by
  rw [← run_append, List.append_assoc]
  rfl

theorem ids_ne (hids : ∀ c ∈ calls, c.id ≠ "") (h : Repeats d calls before c between c') :
    (∀ m ∈ before, m.id ≠ "") ∧ c.id ≠ "" ∧ (∀ m ∈ between, m.id ≠ "") ∧ c'.id ≠ "" := by
  obtain ⟨rest, rfl⟩ := h.order
  simp only [List.forall_mem_append, List.forall_mem_cons] at hids
  exact ⟨hids.1, hids.2.1, hids.2.2.1, hids.2.2.2.1⟩

/-- A repeat that no window in between has missed is refused. -/
theorem refused_of_covered (hd : Kept d) (hmax : 1 ≤ d.max) (hids : ∀ c ∈ calls, c.id ≠ "")
    (h : Repeats d calls before c between c')
    (hcovers : ∀ m ∈ between, m.now ≤ c.now + window m.ttl d) :
    ¬ Accepts (run d (before ++ c :: between)) c' := by
  obtain ⟨hbefore, hid, hbetween, hid'⟩ := ids_ne hids h
  have hkept := kept_run hd hmax hbefore
  have hmax' : 1 ≤ (run d before).max := run_max (d := d) before ▸ hmax
  have hrun : run d (before ++ [c]) = step (run d before) c := run_append before [c]
  have hfew := h.few
  rw [others, hrun] at hfew
  have htracked := tracked_run (kept_step hkept hmax' hid) (step_max (d := run d before) ▸ hmax')
    hbetween (tracked_accepted hkept hid h.accepted)
    (fun m hm => by rw [window_step, window_run]; exact hcovers m hm)
    (by rw [List.nil_append, step_max, run_max]; exact hfew)
  rw [run_concat, hrun, accepts_iff hid', not_not, h.same]
  refine ⟨_, htracked.entry, Int.sub_left_le_of_le_add ?_⟩
  rw [window_run, window_step, window_run]
  exact h.within

/-- A repeat that some window in between has missed is accepted. -/
theorem accepted_of_missed (hids : ∀ c ∈ calls, c.id ≠ "")
    (h : Repeats d calls before c between c')
    (hnot : c.id ∉ admitted (run d (before ++ [c])) between) {m : Call} (hm : m ∈ between)
    (hmissed : ¬ m.now ≤ c.now + window m.ttl d) : Accepts (run d (before ++ c :: between)) c' := by
  obtain ⟨hbefore, hid, hbetween, hid'⟩ := ids_ne hids h
  have hrun : run d (before ++ [c]) = step (run d before) c := run_append before [c]
  rw [run_concat, accepts_iff hid', h.same]
  rintro ⟨entry, hentry, -⟩
  obtain ⟨hfirst, hspared⟩ := lookup_run hbetween hnot hentry
  rw [hrun, step_new hid h.accepted, lookup_insert_if, if_pos rfl] at hfirst
  cases hfirst
  have hin := hspared m hm
  rw [window_run] at hin
  exact hmissed (Int.le_add_of_sub_left_le hin)

theorem others_le (id : String) (calls calls' : List Call) :
    others id (run d calls) calls' ≤ others id d (calls ++ calls') := by
  refine Finset.card_le_card (Finset.erase_subset_erase id ?_)
  rw [admitted_append, List.toFinset_append]
  exact Finset.subset_union_right

theorem exists_accepted {id : String} {d : DeliveryCache} {between : List Call}
    (h : id ∈ admitted d between) :
    ∃ first m rest, between = first ++ m :: rest ∧ m.id = id ∧ Accepts (run d first) m := by
  induction between generalizing d with
  | nil => exact nomatch h
  | cons c between ih =>
    rw [admitted_cons, List.mem_append] at h
    obtain h | h := h
    · by_cases haccept : Accepts d c
      · rw [admitted, if_pos haccept] at h
        exact ⟨[], c, between, rfl, (List.mem_singleton.mp h).symm, haccept⟩
      · rw [admitted, if_neg haccept] at h
        exact nomatch h
    · obtain ⟨first, m, rest, rfl, hid, haccept⟩ := ih h
      exact ⟨c :: first, m, rest, rfl, hid, haccept⟩

/-- A repeat also repeats an acceptance in between. -/
theorem repeats_later (hclock : calls.Pairwise fun a b => a.now ≤ b.now) {first rest : List Call}
    {m : Call} (h : Repeats d calls before c (first ++ m :: rest) c') (hid : m.id = c.id)
    (haccept : Accepts (run (run d (before ++ [c])) first) m) :
    Repeats d calls (before ++ c :: first) m rest c' := by
  obtain ⟨tail, horder⟩ := h.order
  refine ⟨⟨tail, by simp [horder]⟩, h.same.trans hid.symm, run_concat ▸ haccept, ?_, ?_⟩
  · have hle : c.now ≤ m.now := by
      rw [horder, List.pairwise_append, List.pairwise_cons] at hclock
      exact hclock.2.1.1 m (by simp)
    exact h.within.trans (Int.add_le_add_right hle _)
  · have hle := others_le (d := run d (before ++ [c])) m.id (first ++ [m]) rest
    rw [← run_append, List.append_assoc, List.append_assoc] at hle
    rw [hid] at hle ⊢
    refine lt_of_le_of_lt ?_ h.few
    simpa using hle

theorem refused (hd : Kept d) (hmax : 1 ≤ d.max) (hids : ∀ c ∈ calls, c.id ≠ "")
    (hclock : calls.Pairwise fun a b => a.now ≤ b.now) (hcovered : Covered d calls)
    (h : Repeats d calls before c between c') : ¬ Accepts (run d (before ++ c :: between)) c' := by
  induction hn : between.length using Nat.strong_induction_on generalizing before c between with
  | _ n ih =>
    by_cases hnot : c.id ∈ admitted (run d (before ++ [c])) between
    · obtain ⟨first, m, rest, rfl, hid, haccept⟩ := exists_accepted hnot
      have hshorter : rest.length < n := by
        rw [← hn, List.length_append, List.length_cons]
        omega
      have hrefused := ih rest.length hshorter (repeats_later hclock h hid haccept) rfl
      rwa [List.append_assoc, List.cons_append] at hrefused
    · exact refused_of_covered hd hmax hids h (hcovered before c between c' h hnot)

end Repeats

/-- Every repeat of a run is refused exactly if no window in between has run out since the id was
last accepted. -/
theorem windows_iff (ttl : Duration) {max : Int} (hmax : 1 ≤ max) {calls : List Call}
    (hids : ∀ c ∈ calls, c.id ≠ "") (hclock : calls.Pairwise fun a b => a.now ≤ b.now) :
    Windowed (newDeliveryCache ttl max) calls ↔ Covered (newDeliveryCache ttl max) calls := by
  have hkept := kept_new ttl max
  have hroom : 1 ≤ (newDeliveryCache ttl max).max := by
    simp only [newDeliveryCache]
    split_ifs
    · decide
    · omega
  constructor
  · intro h before c between c' hrepeats hnot m hm
    by_contra hmissed
    exact h.refused before c between c' hrepeats (accepted_of_missed hids hrepeats hnot hm hmissed)
  · intro h
    refine ⟨fun before hbefore => ?_, fun before c between c' => refused hkept hroom hids hclock h⟩
    have hroom' := (kept_run hkept hroom fun c hc => hids c (hbefore.subset hc)).room
    rwa [run_max] at hroom'

/-- A delivery, another call with a window of one nanosecond, and the delivery again. -/
def shortWindow : List Call := [⟨"1", 100, 0⟩, ⟨"2", 1, 5⟩, ⟨"1", 100, 6⟩]

theorem repeats_shortWindow :
    Repeats (newDeliveryCache 100 10) shortWindow [] ⟨"1", 100, 0⟩ [⟨"2", 1, 5⟩] ⟨"1", 100, 6⟩ :=
  ⟨⟨[], rfl⟩, rfl, by decide, by decide, by decide⟩

/-- By the general law, the short window is to blame. -/
theorem not_windowed_short : ¬ Windowed (newDeliveryCache 100 10) shortWindow := by
  intro h
  have hcovered := (windows_iff 100 (by decide : (1 : ℤ) ≤ 10) (by decide) (by decide)).mp h
  exact absurd (hcovered _ _ _ _ repeats_shortWindow (by decide) _ List.mem_cons_self)
    (by decide)

/-- A call with a short window lets a repeat in that is due to be refused. -/
theorem repeat_accepted : ¬ ∀ (ttl : Duration) (max : Int) (calls : List Call), 1 ≤ max →
    (∀ c ∈ calls, c.id ≠ "") → (calls.Pairwise fun a b => a.now ≤ b.now) →
    Windowed (newDeliveryCache ttl max) calls := by
  intro h
  have hrefused := (h 100 10 shortWindow (by decide) (by decide) (by decide)).refused _ _ _ _
    repeats_shortWindow
  exact hrefused (by decide)

end RivicQ.Properties.Windows
