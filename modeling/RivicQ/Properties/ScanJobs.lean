import RivicQ.Shared.ScanJobs

namespace RivicQ.Properties.ScanJobs

open RivicQ.Lib.Tables RivicQ.Lib.Projections RivicQ.Shared.GitHubScans RivicQ.Shared.ScanJobs
open RivicQ.Lib.SharedStores (Action Looks run alone isolated_iff part_eq_nil part)
open RivicQ.Discovery.Scans (Tenant.normalize)

variable {D : Type}

/-- Everyone is shown what they would be shown if nobody else had made a call. -/
def Isolated (cs : List (Call D)) : Prop :=
  ∀ tenantID,
    listGHScanJobsForTenant tenantID (stored cs) =
        listGHScanJobsForTenant tenantID (stored (own tenantID cs)) ∧
      ∀ id, getGHScanJobForTenant tenantID id (stored cs) =
        getGHScanJobForTenant tenantID id (stored (own tenantID cs))

/-- A stored job takes the place of jobs of its own tenant only: under its identifier, and where
the store is full. An update changes jobs of its own tenant only, and leaves them to it. -/
def Harmless (s : GHScanJobs D) : Call D → Prop
  | .store job =>
    (∀ old, s.jobs.lookup job.id = some old → tenantOf old = tenantOf job) ∧
      (job.id ∉ s.order → 50 ≤ s.order.length →
        ∀ id old, s.jobs.lookup id = some old → tenantOf old = tenantOf job)
  | .update tenantID id f => ∀ job, s.jobs.lookup id = some job →
      (tenantOf job = Tenant.normalize tenantID → tenantOf (f job) = Tenant.normalize tenantID) ∧
        (tenantOf job ≠ Tenant.normalize tenantID → f job = job)

theorem harmless_action {s : GHScanJobs D} (h : Kept s) (c : Call D) :
    Lib.SharedStores.Harmless tenantOf capacity (held s) c.action ↔ Harmless s c := by
  have hlength : (held s).length = s.order.length := by
    rw [← keys_held h.toInStep, List.length_map]
  cases c with
  | store job =>
    simp only [Call.action, Lib.SharedStores.Harmless, Harmless, Prod.forall, mem_held h.toInStep,
      keys_held h.toInStep, hlength, capacity]
    refine and_congr_left fun _ => ⟨fun hall old hold => hall _ old hold rfl, ?_⟩
    rintro hall id old hold rfl
    exact hall old hold
  | update tenantID id f =>
    simp only [Call.action, Lib.SharedStores.Harmless, Harmless, Prod.forall, mem_held h.toInStep]
    refine ⟨fun hall job hjob => hall id job hjob rfl, ?_⟩
    rintro hall id' job hjob rfl
    exact hall job hjob

theorem looks_iff (cs : List (Call D)) :
    Isolated cs ↔ ∀ t, Looks tenantOf t (run capacity (cs.map Call.action))
      (run capacity (alone tenantOf t (cs.map Call.action))) := by
  have hshown : ∀ tenantID,
      (listGHScanJobsForTenant tenantID (stored cs) =
          listGHScanJobsForTenant tenantID (stored (own tenantID cs)) ∧
        ∀ id, getGHScanJobForTenant tenantID id (stored cs) =
          getGHScanJobForTenant tenantID id (stored (own tenantID cs))) ↔
        Looks tenantOf (Tenant.normalize tenantID) (run capacity (cs.map Call.action))
          (run capacity (alone tenantOf (Tenant.normalize tenantID) (cs.map Call.action))) := by
    intro tenantID
    rw [shown_iff (kept_stored cs).toInStep (kept_stored _).toInStep, held_stored, held_own]
  rw [Isolated, forall_congr' hshown]
  refine ⟨fun h t => ?_, fun h tenantID => h _⟩
  by_cases ht : ∃ tenantID, Tenant.normalize tenantID = t
  · obtain ⟨tenantID, rfl⟩ := ht
    exact h tenantID
  · -- no job has a tenant that is not in normal form
    have hnone : ∀ l : List (String × GHScanJob D), part tenantOf t l = [] := fun l =>
      part_eq_nil fun e _ heq => ht ⟨e.2.tenantID, heq⟩
    rw [Looks, hnone, hnone]
    exact ⟨rfl, fun _ _ => Iff.rfl⟩

theorem along_action (cs : List (Call D)) :
    Along (fun l a => ((), Lib.SharedStores.apply capacity l a))
        (Lib.SharedStores.Harmless tenantOf capacity) [] (cs.map Call.action) ↔
      Along (fun s c => ((), step s c)) Harmless {} cs := by
  have hsteps : ∀ s : GHScanJobs D, Kept s →
      (Along (fun l a => ((), Lib.SharedStores.apply capacity l a))
          (Lib.SharedStores.Harmless tenantOf capacity) (held s) (cs.map Call.action) ↔
        Along (fun s c => ((), step s c)) Harmless s cs) := by
    induction cs with
    | nil => exact fun s _ => Iff.rfl
    | cons c cs ih =>
      intro s h
      simp only [List.map_cons, Along]
      rw [harmless_action h, ← held_step h, ih (step s c) (kept_step h c)]
  exact hsteps {} kept_empty

/-- Map and order are always in step, and tenants are isolated throughout a sequence of calls if
and only if every call is harmless. -/
theorem scan_jobs_isolated_iff (cs : List (Call D)) :
    (∀ bs, bs <+: cs → InStep (stored bs) ∧ Isolated bs) ↔
      Along (fun s c => ((), step s c)) Harmless {} cs := by
  have hprefixes : (∀ bs, bs <+: cs → InStep (stored bs) ∧ Isolated bs) ↔
      ∀ as, as <+: cs.map Call.action →
        ∀ t, Looks tenantOf t (run capacity as) (run capacity (alone tenantOf t as)) := by
    constructor
    · intro h as has
      obtain ⟨bs, hbs, rfl⟩ := List.prefix_map_iff.mp has
      exact (looks_iff bs).mp (h bs hbs).2
    · intro h bs hbs
      exact ⟨(kept_stored bs).toInStep, (looks_iff bs).mpr (h _ (hbs.map Call.action))⟩
  rw [hprefixes, isolated_iff, along_action]

/-- A job of one tenant, and then fifty of another. -/
def crowd : List (Call Unit) :=
  .store { id := "scan", tenantID := "acme", status := "queued", stage := "queued" } ::
    (List.range 50).map fun n =>
      .store { id := toString n, tenantID := "other", status := "queued", stage := "queued" }

/-- The fifty jobs of another tenant make a job disappear. -/
theorem crowded_out :
    ¬ ∀ cs : List (Call Unit), ∀ bs, bs <+: cs → InStep (stored bs) ∧ Isolated bs := by
  intro h
  have hget := ((h crowd crowd (List.prefix_refl _)).2 "acme").2 "scan"
  exact absurd (congrArg Option.isSome hget) (by decide +kernel)

end RivicQ.Properties.ScanJobs
