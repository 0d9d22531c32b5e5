import RivicQ.Lib.SharedStores
import RivicQ.Shared.GitHubScans

namespace RivicQ.Shared.ScanJobs

open RivicQ.Lib.Tables RivicQ.Lib.SharedStores RivicQ.Shared.GitHubScans
open RivicQ.Discovery.Scans (Tenant.normalize)

variable {D : Type} {s : GHScanJobs D} {job : GHScanJob D} {id : String}
  {f : GHScanJob D → GHScanJob D} {e : String × GHScanJob D}

def tenantOf (job : GHScanJob D) : String := Tenant.normalize job.tenantID

/-- What the tenants do to the stored jobs. -/
inductive Call (D : Type) where
  | store (job : GHScanJob D)
  | update (tenantID id : String) (f : GHScanJob D → GHScanJob D)

def Call.tenant : Call D → String
  | .store job => tenantOf job
  | .update tenantID _ _ => Tenant.normalize tenantID

def step (s : GHScanJobs D) : Call D → GHScanJobs D
  | .store job => storeGHScanJob job s
  | .update _ id f => updateGHScanJob id f s

/-- The jobs that are held, with their identifiers, oldest first. -/
def held (s : GHScanJobs D) : List (String × GHScanJob D) :=
  s.order.filterMap fun id => (s.jobs.lookup id).map (Prod.mk id)

/-- The map and the order hold the same identifiers, the order holds none twice. -/
structure InStep (s : GHScanJobs D) : Prop where
  nodup : s.order.Nodup
  same : ∀ id, id ∈ s.order ↔ id ∈ s.jobs

/-- The number of jobs that are held at most. -/
def capacity : Nat := 50

/-- The store keeps its two parts in step, and no more than its capacity. -/
structure Kept (s : GHScanJobs D) : Prop extends InStep s where
  length : s.order.length ≤ capacity

/-- A call, as what it does to a shared store. -/
def Call.action : Call D → Action String (GHScanJob D) String
  | .store job => .put job.id job
  | .update tenantID id f => .adjust (Tenant.normalize tenantID) id f

theorem by_action (c : Call D) : c.action.by tenantOf = c.tenant := by
  cases c with
  | store job => rw [Call.action, Action.by, Call.tenant]
  | update tenantID id f => rw [Call.action, Action.by, Call.tenant]

section Held

theorem mem_held (h : InStep s) : e ∈ held s ↔ s.jobs.lookup e.1 = some e.2 := by
  rw [held, List.mem_filterMap]
  constructor
  · rintro ⟨id, -, hid⟩
    obtain ⟨job, hjob, rfl⟩ := Option.map_eq_some_iff.mp hid
    exact hjob
  · intro hlookup
    refine ⟨e.1, (h.same e.1).mpr ?_, ?_⟩
    · exact AList.lookup_isSome.mp (hlookup ▸ rfl)
    · rw [hlookup]
      rfl

theorem keys_held (h : InStep s) : (held s).map Prod.fst = s.order := by
  rw [held, List.map_filterMap]
  refine (List.filterMap_congr fun id hid => ?_).trans List.filterMap_some
  obtain ⟨job, hjob⟩ := Option.isSome_iff_exists.mp (AList.lookup_isSome.mpr ((h.same id).mp hid))
  rw [hjob]
  rfl

/-- Entries under the identifiers in order, each with the job the map has for it, are the jobs
held. -/
theorem held_eq {l : List (String × GHScanJob D)} (hkeys : l.map Prod.fst = s.order)
    (hjobs : ∀ e ∈ l, s.jobs.lookup e.1 = some e.2) : held s = l := by
  rw [held, ← hkeys, List.filterMap_map]
  refine (List.filterMap_congr fun e he => ?_).trans List.filterMap_some
  rw [Function.comp_apply, hjobs e he]
  rfl

end Held

section Steps

/-- A job with the identifier of one that is held takes its place. -/
theorem store_held (h : Kept s) (hid : job.id ∈ s.order) :
    storeGHScanJob job s = { jobs := s.jobs.insert job.id job, order := s.order } := by
  have hsome : (s.jobs.lookup job.id).isSome :=
    AList.lookup_isSome.mpr ((h.same job.id).mp hid)
  have hexcess : s.order.length - 50 = 0 := Nat.sub_eq_zero_of_le h.length
  simp only [storeGHScanJob]
  rw [if_pos hsome, hexcess]
  rfl

/-- A new job comes last, and the oldest go that are too many. -/
theorem store_new (h : Kept s) (hid : job.id ∉ s.order) :
    (storeGHScanJob job s).order = (s.order ++ [job.id]).drop (s.order.length + 1 - capacity) ∧
      ∀ id, (storeGHScanJob job s).jobs.lookup id =
        if id ∈ (s.order ++ [job.id]).take (s.order.length + 1 - capacity) then none
        else if id = job.id then some job else s.jobs.lookup id := by
  have hnone : ¬ (s.jobs.lookup job.id).isSome := fun hsome =>
    hid ((h.same job.id).mpr (AList.lookup_isSome.mp hsome))
  simp only [storeGHScanJob]
  rw [if_neg hnone, List.length_append, List.length_singleton]
  refine ⟨rfl, fun id => ?_⟩
  rw [lookup_foldl_erase, lookup_insert_if]
  rfl

theorem nodup_new (h : Kept s) (hid : id ∉ s.order) : (s.order ++ [id]).Nodup := by
  refine List.nodup_append.mpr ⟨h.nodup, List.nodup_singleton id, ?_⟩
  rintro x hx y hy rfl
  exact hid (List.mem_singleton.mp hy ▸ hx)

theorem mem_drop_iff {l : List String} (h : l.Nodup) {n : Nat} :
    id ∈ l.drop n ↔ id ∈ l ∧ id ∉ l.take n := by
  have hdisjoint := List.disjoint_take_drop h (le_refl n)
  constructor
  · exact fun hdrop => ⟨List.mem_of_mem_drop hdrop, fun htake => hdisjoint htake hdrop⟩
  · rintro ⟨hmem, htake⟩
    rw [← List.take_append_drop n l, List.mem_append] at hmem
    exact hmem.resolve_left htake

theorem mem_jobs : id ∈ s.jobs ↔ ∃ job, s.jobs.lookup id = some job := by
  rw [← AList.lookup_isSome, Option.isSome_iff_exists]

theorem kept_store (h : Kept s) : Kept (storeGHScanJob job s) := by
  by_cases hid : job.id ∈ s.order
  · rw [store_held h hid]
    refine ⟨⟨h.nodup, fun id => ?_⟩, h.length⟩
    rw [AList.mem_insert, ← h.same id]
    exact ⟨Or.inr, fun hor => hor.elim (fun heq => heq ▸ hid) fun hmem => hmem⟩
  · obtain ⟨horder, hjobs⟩ := store_new h hid
    have hnodup := nodup_new h hid
    constructor
    · constructor
      · rw [horder]
        exact hnodup.sublist (List.drop_sublist _ _)
      · intro id
        rw [horder, mem_drop_iff hnodup, mem_jobs]
        simp only [hjobs, Option.ite_none_left_eq_some]
        rw [exists_and_left, and_comm]
        refine and_congr_right fun _ => ?_
        rw [List.mem_append, List.mem_singleton, h.same id, mem_jobs]
        split_ifs with hkey
        · exact iff_of_true (Or.inr hkey) ⟨job, rfl⟩
        · rw [or_iff_left hkey]
    · rw [horder, List.length_drop, List.length_append, List.length_singleton]
      have := h.length
      omega

theorem held_store (h : Kept s) : held (storeGHScanJob job s) = put capacity job.id job (held s) := by
  rw [put, keys_held h.toInStep]
  split_ifs with hid
  · rw [store_held h hid]
    refine held_eq ?_ ?_
    · rw [keys_replace fun _ => job, keys_held h.toInStep]
    · intro e he
      obtain ⟨e', he', rfl⟩ := List.mem_map.mp he
      rw [lookup_insert_if]
      by_cases hkey : e'.1 = job.id
      · rw [if_pos hkey, if_pos rfl]
      · rw [if_neg hkey, if_neg hkey]
        exact (mem_held h.toInStep).mp he'
  · obtain ⟨horder, hjobs⟩ := store_new h hid
    have hlength : (held s).length = s.order.length := by
      rw [← keys_held h.toInStep, List.length_map]
    rw [hlength]
    refine held_eq ?_ ?_
    · rw [List.map_drop, List.map_append, keys_held h.toInStep, horder]
      rfl
    · intro e he
      have hkey : e.1 ∈ (s.order ++ [job.id]).drop (s.order.length + 1 - capacity) := by
        rw [← keys_held h.toInStep, ← List.map_singleton (a := (job.id, job)) (f := Prod.fst),
          ← List.map_append, ← List.map_drop, List.length_map, hlength]
        exact List.mem_map_of_mem he
      rw [hjobs, if_neg ((mem_drop_iff (nodup_new h hid)).mp hkey).2]
      obtain he | he := List.mem_append.mp (List.mem_of_mem_drop he)
      · rw [if_neg, (mem_held h.toInStep).mp he]
        rintro heq
        rw [← keys_held h.toInStep, ← heq] at hid
        exact hid (List.mem_map_of_mem he)
      · rw [List.mem_singleton.mp he, if_pos rfl]

theorem update_held (h : s.jobs.lookup id = some job) :
    updateGHScanJob id f s = { s with jobs := s.jobs.insert id (f job) } := by
  rw [updateGHScanJob, h]

theorem update_none (h : s.jobs.lookup id = none) : updateGHScanJob id f s = s := by
  rw [updateGHScanJob, h]

theorem kept_update (h : Kept s) : Kept (updateGHScanJob id f s) := by
  cases hid : s.jobs.lookup id with
  | none => rwa [update_none hid]
  | some job =>
    rw [update_held hid]
    refine ⟨⟨h.nodup, fun id' => ?_⟩, h.length⟩
    rw [AList.mem_insert, ← h.same id', or_iff_right_of_imp]
    rintro rfl
    exact (h.same id').mpr (mem_jobs.mpr ⟨job, hid⟩)

theorem held_update (h : Kept s) : held (updateGHScanJob id f s) = adjust id f (held s) := by
  cases hid : s.jobs.lookup id with
  | none =>
    rw [update_none hid]
    refine ((List.map_congr_left fun e he => ?_).trans (List.map_id _)).symm
    refine if_neg ?_
    rintro rfl
    rw [(mem_held h.toInStep).mp he] at hid
    cases hid
  | some job =>
    rw [update_held hid]
    refine held_eq ?_ ?_
    · rw [adjust, keys_replace fun e => f e.2, keys_held h.toInStep]
    · intro e he
      obtain ⟨e', he', rfl⟩ := List.mem_map.mp he
      have hlookup := (mem_held h.toInStep).mp he'
      rw [lookup_insert_if]
      by_cases hkey : e'.1 = id
      · rw [hkey, hid] at hlookup
        rw [if_pos hkey, if_pos rfl, Option.some.inj hlookup]
      · rwa [if_neg hkey, if_neg hkey]

theorem kept_empty : Kept ({} : GHScanJobs D) where
  nodup := List.nodup_nil
  same id := iff_of_false List.not_mem_nil (AList.notMem_empty id)
  length := Nat.zero_le capacity

theorem kept_step (h : Kept s) (c : Call D) : Kept (step s c) := by
  cases c with
  | store job => exact kept_store h
  | update tenantID id f => exact kept_update h

theorem held_step (h : Kept s) (c : Call D) :
    held (step s c) = apply capacity (held s) c.action := by
  cases c with
  | store job => exact held_store h
  | update tenantID id f => exact held_update h

end Steps

section Runs

def stored (cs : List (Call D)) : GHScanJobs D := cs.foldl step {}

/-- The calls that are made for a tenant. -/
def own (tenantID : String) (cs : List (Call D)) : List (Call D) :=
  cs.filter fun c => c.tenant = Tenant.normalize tenantID

theorem kept_stored (cs : List (Call D)) : Kept (stored cs) := by
  induction cs using List.reverseRecOn with
  | nil => exact kept_empty
  | append_singleton cs c ih =>
    rw [stored, List.foldl_append]
    exact kept_step ih c

/-- The jobs that are held after a run are those of the shared store. -/
theorem held_stored (cs : List (Call D)) :
    held (stored cs) = run capacity (cs.map Call.action) := by
  induction cs using List.reverseRecOn with
  | nil => rfl
  | append_singleton cs c ih =>
    rw [stored, Lib.SharedStores.run, List.map_append, List.foldl_append, List.foldl_append,
      ← Lib.SharedStores.run, ← ih]
    exact held_step (kept_stored cs) c

theorem held_own (tenantID : String) (cs : List (Call D)) : held (stored (own tenantID cs)) =
    run capacity
      (alone tenantOf (Tenant.normalize tenantID) (cs.map Call.action)) := by
  have hfilter : cs.filter (fun c => c.tenant = Tenant.normalize tenantID) =
      cs.filter ((fun a => decide (a.by tenantOf = Tenant.normalize tenantID)) ∘ Call.action) :=
    List.filter_congr fun c _ => by rw [Function.comp_apply, by_action]
  rw [held_stored, own, alone, List.filter_map, hfilter]

end Runs

section Views

theorem list_held (tenantID : String) (s : GHScanJobs D) : listGHScanJobsForTenant tenantID s =
    ((part tenantOf (Tenant.normalize tenantID) (held s)).map Prod.snd).reverse := by
  have hjobs : (held s).map Prod.snd = s.order.filterMap s.jobs.lookup := by
    rw [held, List.map_filterMap]
    refine List.filterMap_congr fun id _ => ?_
    rw [Option.map_map]
    exact Option.map_id'
  have hpart : (part tenantOf (Tenant.normalize tenantID) (held s)).map Prod.snd =
      ((held s).map Prod.snd).filter fun job => tenantOf job = Tenant.normalize tenantID := by
    rw [part, List.filter_map]
    simp only [Function.comp_def]
  rw [hpart, hjobs, ← List.filter_reverse, ← List.filterMap_reverse, listGHScanJobsForTenant]
  refine List.filter_congr fun job _ => decide_eq_decide.mpr ?_
  rw [tenantOf]

theorem get_held (h : InStep s) (tenantID id : String) :
    getGHScanJobForTenant tenantID id s = some job ↔
      (id, job) ∈ part tenantOf (Tenant.normalize tenantID) (held s) := by
  rw [getGHScanJobForTenant, Option.filter_eq_some_iff, mem_part, mem_held h]
  exact and_congr_right fun _ => decide_eq_true_iff

/-- A tenant is shown the same by two stores exactly if they look the same to it. -/
theorem shown_iff {s' : GHScanJobs D} (h : InStep s) (h' : InStep s') (tenantID : String) :
    (listGHScanJobsForTenant tenantID s = listGHScanJobsForTenant tenantID s' ∧
      ∀ id, getGHScanJobForTenant tenantID id s = getGHScanJobForTenant tenantID id s') ↔
      Looks tenantOf (Tenant.normalize tenantID) (held s) (held s') := by
  rw [list_held, list_held, List.reverse_inj, Looks]
  refine and_congr_right fun _ => forall_congr' fun id => ?_
  simp only [← get_held h, ← get_held h']
  exact Option.ext_iff

end Views

end RivicQ.Shared.ScanJobs
