import Mathlib.Order.OrderDual
import RivicQ.Lib.Firsts
import RivicQ.Properties.Caps
import RivicQ.Properties.Dedup

namespace RivicQ.Properties.Merges

open RivicQ.Lib.GoStrings RivicQ.Lib.Groups RivicQ.Lib.Summaries RivicQ.Lib.Firsts
open RivicQ.Intelligence.Findings RivicQ.Intelligence.Policies RivicQ.Intelligence.PQCClass
open RivicQ.Intelligence.Fingerprint RivicQ.Properties.Caps
open RivicQ.Properties.Dedup (identity fingerprint_finalizeFinding)

/-- The four timestamps of a finding are set. -/
structure Timed (f : Finding) : Prop where
  created : f.createdAt ≠ 0
  updated : f.updatedAt ≠ 0
  first : f.firstSeen ≠ 0
  last : f.lastSeen ≠ 0

variable {cm : CaseMap} {digest : List UInt8 → String} {t t' : Time} {f g prev r : Finding}
  {fs gs items : List Finding}

section Stamping

/-- What a stamp leaves as it is, but for the action of the risk. -/
structure Stamped (cm : CaseMap) (digest : List UInt8 → String) (r : Finding) : Prop where
  timed : Timed r
  version : r.scannerVersion = scannerVersion
  rule : ruleIDFor cm r = r.ruleID
  named : hasPrefix r.id "rvq-" = true
  fingerprint : r.fingerprint = digest (fingerprintKey cm r)
  id : r.id = "rvq-" ++ String.ofList (r.fingerprint.toList.take 16)
  pqcClass : classifyPQC cm r = r.pqcClass
  action : r.recommendedAction = "" → pqcRecommendedAction r.pqcClass = ""
  status : r.status ≠ ""

/-- The action that a finding recommends once it is stamped. -/
def action (cm : CaseMap) (f : Finding) : String :=
  if f.recommendedAction = "" then pqcRecommendedAction (classifyPQC cm f) else f.recommendedAction

theorem classifyPQC_congr (hclass : f.pqcClass = g.pqcClass)
    (halgorithm : f.algorithm = g.algorithm) (hevidence : f.evidence = g.evidence)
    (htitle : f.title = g.title) (hlength : f.keyLength = g.keyLength) :
    classifyPQC cm f = classifyPQC cm g := by
  simp only [classifyPQC, classifyPQCWithReason, Finding.blob, hclass, halgorithm, hevidence,
    htitle, hlength]

/-- A class that a finding carries stays. -/
theorem classifyPQC_carried (h : g.pqcClass = classifyPQC cm f)
    (halgorithm : g.algorithm = f.algorithm) (hevidence : g.evidence = f.evidence)
    (htitle : g.title = f.title) (hlength : g.keyLength = f.keyLength) :
    classifyPQC cm g = g.pqcClass := by
  by_cases hclass : g.pqcClass = ""
  · have hf : f.pqcClass = "" := by
      by_contra hf
      rw [h, classifyPQC, classifyPQCWithReason, if_pos hf] at hclass
      exact hf hclass
    rw [h]
    exact classifyPQC_congr (hclass.trans hf.symm) halgorithm hevidence htitle hlength
  · rw [classifyPQC, classifyPQCWithReason, if_pos hclass]

theorem ite_ne_empty {p : Prop} [Decidable p] {a b : String} (ha : a ≠ "") (hb : b ≠ "") :
    (if p then a else b) ≠ "" := by
  split_ifs
  · exact ha
  · exact hb

theorem append_ne_empty {p : String} (hp : p ≠ "") (s : String) : p ++ s ≠ "" :=
  fun h => hp (String.append_eq_empty_iff.mp h).1

theorem ruleIDFor_ne (f : Finding) : ruleIDFor cm f ≠ "" := by
  unfold ruleIDFor
  by_cases hrule : f.ruleID ≠ ""
  · rwa [if_pos hrule]
  · rw [if_neg hrule]
    repeat' apply ite_ne_empty
    all_goals first | decide | exact append_ne_empty (by decide) _

theorem finalize_of_stamped (h : Stamped cm digest r) : finalizeFinding cm digest t r =
    { r with risk := { r.risk with recommendedAction := r.recommendedAction } } := by
  have hkey : fingerprintKey cm { r with ruleID := ruleIDFor cm r } = fingerprintKey cm r := by
    rw [h.rule]
  unfold finalizeFinding
  extract_lets ruleID labels fp id r' pqcClass recommendedAction createdAt updatedAt firstSeen
    lastSeen status
  have hlabels : labels = r.labels := if_neg (by simp [h.named])
  have hfp : fp = r.fingerprint := (congrArg digest hkey).trans h.fingerprint.symm
  have hid : id = r.id := by
    rw [h.id, ← hfp]
  have hclass : pqcClass = r.pqcClass := (classifyPQC_congr rfl rfl rfl rfl rfl).trans h.pqcClass
  have haction : recommendedAction = r.recommendedAction := by
    change (if r.recommendedAction = "" then pqcRecommendedAction pqcClass else _) = _
    split_ifs with hempty
    · rw [hclass, h.action hempty, hempty]
    · rfl
  have hcreated : createdAt = r.createdAt := if_neg h.timed.created
  have hupdated : updatedAt = r.updatedAt := if_neg h.timed.updated
  have hfirst : firstSeen = r.firstSeen := if_neg h.timed.first
  have hlast : lastSeen = r.lastSeen := if_neg h.timed.last
  have hstatus : status = r.status := if_neg h.status
  have hrule : ruleID = r.ruleID := h.rule
  simp only [r', hlabels, hfp, hid, hclass, haction, hcreated, hupdated, hfirst, hlast, hstatus,
    hrule, ← h.version]
  rfl

theorem timed_finalize (h : t ≠ 0 ∨ Timed f) : Timed (finalizeFinding cm digest t f) := by
  have hcreated : (if f.createdAt = 0 then t else f.createdAt) ≠ 0 := by
    split_ifs with hzero
    · exact h.resolve_right fun hf => hf.created hzero
    · exact hzero
  have hset : ∀ {a b : Time}, b ≠ 0 → (if a = 0 then b else a) ≠ 0 := by
    intro a b hb
    split_ifs with hzero
    · exact hb
    · exact hzero
  exact ⟨hcreated, hset hcreated, hset hcreated, hset (hset hcreated)⟩

theorem stamped_finalize (h : t ≠ 0 ∨ Timed f) :
    Stamped cm digest (finalizeFinding cm digest t f) where
  timed := timed_finalize h
  version := rfl
  rule := if_pos (ruleIDFor_ne f)
  named := hasPrefix_append _ _
  fingerprint := rfl
  id := rfl
  pqcClass := classifyPQC_carried (f := f) rfl rfl rfl rfl rfl
  action h := by
    have haction : action cm f = "" := h
    unfold action at haction
    split_ifs at haction with hempty
    · exact haction
    · exact absurd haction hempty
  status := by
    change (if f.status = "" then "open" else f.status) ≠ ""
    split_ifs with hempty
    · decide
    · exact hempty

/-- Once stamped, a finding is not changed by a stamp. -/
theorem finalize_finalize (h : t ≠ 0 ∨ Timed f) : finalizeFinding cm digest t'
    (finalizeFinding cm digest t f) = finalizeFinding cm digest t f :=
  finalize_of_stamped (stamped_finalize h)

end Stamping

section Merging

/-- The stamp of a finding whose timestamps are set: the clock is not read. -/
def stamp (cm : CaseMap) (digest : List UInt8 → String) (f : Finding) : Finding :=
  finalizeFinding cm digest 0 f

/-- The fingerprint that a finding gets. -/
def print (cm : CaseMap) (digest : List UInt8 → String) (f : Finding) : String :=
  digest (identity cm f)

theorem finalize_eq_stamp (h : Timed f) : finalizeFinding cm digest t f = stamp cm digest f := by
  simp only [stamp, finalizeFinding, if_neg h.created, if_neg h.updated, if_neg h.first,
    if_neg h.last]

theorem fingerprint_stamp (f : Finding) : (stamp cm digest f).fingerprint = print cm digest f :=
  fingerprint_finalizeFinding

theorem stamped_stamp (h : Timed f) : Stamped cm digest (stamp cm digest f) :=
  stamped_finalize (.inr h)

theorem dedup_eq {now : Nat → Time} (h : ∀ f ∈ fs, Timed f) : dedupFindings cm digest now fs =
    (group Finding.fingerprint mergeFinding (fs.map (stamp cm digest))).values := by
  have hmap : (fs.zipIdx.map fun x => finalizeFinding cm digest (now x.2) x.1) =
      fs.map (stamp cm digest) := by
    have hstamp : ∀ x ∈ fs.zipIdx, finalizeFinding cm digest (now x.2) x.1 =
        stamp cm digest x.1 := fun x hx => finalize_eq_stamp (h _ (List.fst_mem_of_mem_zipIdx hx))
    rw [List.map_congr_left hstamp]
    exact (List.map_map (f := Prod.fst) (g := stamp cm digest) (l := fs.zipIdx)).symm.trans
      (by rw [List.zipIdx_map_fst])
  unfold dedupFindings
  split_ifs with hfs
  · rw [hfs]
    rfl
  · rw [hmap]

theorem stamped_merge (h : Stamped cm digest prev) (hf : Timed f) :
    Stamped cm digest (mergeFinding prev f) where
  timed := by
    have hset : ∀ {p : Prop} [Decidable p] {a b : Time},
        a ≠ 0 → b ≠ 0 → (if p then a else b) ≠ 0 := by
      intro p _ a b ha hb
      split_ifs
      · exact ha
      · exact hb
    exact ⟨hset hf.first h.timed.created, hset hf.last h.timed.updated,
      hset hf.first h.timed.first, hset hf.last h.timed.last⟩
  version := h.version
  rule := h.rule
  named := h.named
  fingerprint := h.fingerprint
  id := h.id
  pqcClass := (classifyPQC_congr rfl rfl rfl rfl rfl).trans h.pqcClass
  action := h.action
  status := h.status

theorem stamped_summary (hitems : ∀ f ∈ items, Stamped cm digest f)
    (h : summary mergeFinding items = some r) : Stamped cm digest r := by
  refine summary_rule (fun vs r => (∀ f ∈ vs, Stamped cm digest f) → Stamped cm digest r)
    (fun f hf => hf f List.mem_cons_self) (fun vs r f ih hvs => ?_) h hitems
  obtain ⟨hvs, hf⟩ := List.forall_mem_append.mp hvs
  exact stamped_merge (ih hvs) (hf f List.mem_cons_self).timed

theorem fingerprint_merge (a b : Finding) : (mergeFinding a b).fingerprint = a.fingerprint := rfl

theorem rank_merge (a b : Finding) : severityRank (mergeFinding a b).severity =
    max (severityRank a.severity) (severityRank b.severity) := by
  change severityRank (if decide _ = true then _ else _) = _
  split_ifs with h
  · exact (max_eq_right (of_decide_eq_true h).le).symm
  · exact (max_eq_left (not_lt.mp fun hlt => h (decide_eq_true hlt))).symm

theorem first_merge (a b : Finding) :
    (mergeFinding a b).firstSeen = min a.firstSeen b.firstSeen := by
  change (if decide _ = true then _ else _) = _
  split_ifs with h
  · exact (min_eq_right (of_decide_eq_true h).le).symm
  · exact (min_eq_left (not_lt.mp fun hlt => h (decide_eq_true hlt))).symm

theorem last_merge (a b : Finding) : (mergeFinding a b).lastSeen = max a.lastSeen b.lastSeen := by
  change (if decide _ = true then _ else _) = _
  split_ifs with h
  · exact (max_eq_right (of_decide_eq_true h).le).symm
  · exact (max_eq_left (not_lt.mp fun hlt => h (decide_eq_true hlt))).symm

theorem kev_merge (a b : Finding) : (mergeFinding a b).kev = (a.kev || b.kev) := by
  change (if b.kev = true then true else a.kev) = _
  cases a.kev <;> cases b.kev <;> rfl

/-- The first finding of the greatest severity. -/
def Worst (items : List Finding) (g : Finding) : Prop :=
  ∃ before after, items = before ++ g :: after ∧
    (∀ e ∈ before, severityRank e.severity < severityRank g.severity) ∧
    ∀ e ∈ after, severityRank e.severity ≤ severityRank g.severity

theorem worst_unique (hf : Worst items f) (hg : Worst items g) : f = g := by
  obtain ⟨before, after, rfl, hbefore, hafter⟩ := hf
  obtain ⟨before', after', heq, hbefore', hafter'⟩ := hg
  obtain ⟨mid, rfl, hmid⟩ | ⟨mid, rfl, hmid⟩ := List.append_eq_append_iff.mp heq
  · cases mid with
    | nil => exact (List.cons.inj hmid).1
    | cons e mid =>
      obtain ⟨rfl, rfl⟩ := List.cons.inj hmid
      have hlt := hbefore' f (List.mem_append_right _ List.mem_cons_self)
      exact absurd (hafter g (List.mem_append_right _ List.mem_cons_self)) (not_le.mpr hlt)
  · cases mid with
    | nil => exact (List.cons.inj hmid).1.symm
    | cons e mid =>
      obtain ⟨rfl, rfl⟩ := List.cons.inj hmid
      have hlt := hbefore g (List.mem_append_right _ List.mem_cons_self)
      exact absurd (hafter' f (List.mem_append_right _ List.mem_cons_self)) (not_le.mpr hlt)

/-- The action is that of the first finding, the risk that of the worst. -/
theorem summary_actions (h : summary mergeFinding items = some r) :
    (∃ f, items.head? = some f ∧ r.recommendedAction = f.recommendedAction) ∧
      ∃ g, Worst items g ∧ r.risk = g.risk ∧ severityRank r.severity = severityRank g.severity := by
  refine summary_rule (fun vs r =>
    (∃ f, vs.head? = some f ∧ r.recommendedAction = f.recommendedAction) ∧
      ∃ g, Worst vs g ∧ r.risk = g.risk ∧ severityRank r.severity = severityRank g.severity)
    (fun f => ⟨⟨f, rfl, rfl⟩, f,
      ⟨[], [], rfl, List.forall_mem_nil _, List.forall_mem_nil _⟩, rfl, rfl⟩) ?_ h
  rintro vs r f ⟨⟨e, hhead, haction⟩, g, ⟨before, after, rfl, hbefore, hafter⟩, hrisk, hrank⟩
  refine ⟨⟨e, ?_, haction⟩, ?_⟩
  · rw [List.head?_append, hhead]
    rfl
  · by_cases hworse : severityRank f.severity > severityRank r.severity
    · refine ⟨f, ⟨before ++ g :: after, [], rfl, fun e he => ?_, List.forall_mem_nil _⟩, ?_, ?_⟩
      · rw [hrank] at hworse
        obtain he | he := List.mem_append.mp he
        · exact (hbefore e he).trans hworse
        · obtain rfl | he := List.mem_cons.mp he
          · exact hworse
          · exact (hafter e he).trans_lt hworse
      · exact if_pos (decide_eq_true hworse)
      · rw [rank_merge, max_eq_right hworse.le]
    · refine ⟨g, ⟨before, after ++ [f], by rw [List.append_assoc]; rfl, hbefore, ?_⟩, ?_, ?_⟩
      · rw [List.forall_mem_append, List.forall_mem_singleton, ← hrank]
        exact ⟨hrank ▸ hafter, not_lt.mp hworse⟩
      · exact (if_neg fun h => hworse (of_decide_eq_true h)).trans hrisk
      · rw [rank_merge, max_eq_left (not_lt.mp hworse), hrank]

end Merging

section Laws

variable {pl : Platform} {now : Nat → Time}

/-- What the deduplicated findings are to keep of all findings with their fingerprint. -/
structure Lawful (pl : Platform) (digest : List UInt8 → String) (now : Nat → Time)
    (fs : List Finding) : Prop where
  prints : (dedupFindings pl.cases digest now fs).map Finding.fingerprint =
    firsts id (fs.map (print pl.cases digest))
  rank : ∀ r ∈ dedupFindings pl.cases digest now fs,
    IsGreatest {n | ∃ f ∈ fs, print pl.cases digest f = r.fingerprint ∧ severityRank f.severity = n}
      (severityRank r.severity)
  firstSeen : ∀ r ∈ dedupFindings pl.cases digest now fs,
    IsLeast {n | ∃ f ∈ fs, print pl.cases digest f = r.fingerprint ∧ f.firstSeen = n} r.firstSeen
  lastSeen : ∀ r ∈ dedupFindings pl.cases digest now fs,
    IsGreatest {n | ∃ f ∈ fs, print pl.cases digest f = r.fingerprint ∧ f.lastSeen = n} r.lastSeen
  kev : ∀ r ∈ dedupFindings pl.cases digest now fs,
    r.kev = true ↔ ∃ f ∈ fs, print pl.cases digest f = r.fingerprint ∧ f.kev = true
  idempotent : ∀ now', dedupFindings pl.cases digest now' (dedupFindings pl.cases digest now fs) =
    dedupFindings pl.cases digest now fs
  anyOrder : ∀ gs, gs.Perm fs → ∀ now', ∀ r ∈ dedupFindings pl.cases digest now fs,
    ∃ r' ∈ dedupFindings pl.cases digest now' gs, r'.fingerprint = r.fingerprint ∧
      severityRank r'.severity = severityRank r.severity ∧ r'.firstSeen = r.firstSeen ∧
      r'.lastSeen = r.lastSeen ∧ r'.kev = r.kev
  thresholds : ∀ quote gate, FailAlike pl quote gate (dedupFindings pl.cases digest now fs) fs
  finalized : ∀ f t t', t ≠ 0 → finalizeFinding pl.cases digest t'
    (finalizeFinding pl.cases digest t f) = finalizeFinding pl.cases digest t f

/-- Of each fingerprint, the first finding and the first of the greatest severity recommend the
same action. -/
def Agreeing (cm : CaseMap) (digest : List UInt8 → String) (fs : List Finding) : Prop :=
  ∀ f g, First (print cm digest) fs f →
    Worst (fs.filter fun e => print cm digest e = print cm digest f) g → action cm f = action cm g

theorem filter_stamp (k : String) : (fs.map (stamp cm digest)).filter (fun e => e.fingerprint = k) =
    (fs.filter fun e => print cm digest e = k).map (stamp cm digest) := by
  rw [List.filter_map]
  simp only [Function.comp_def, fingerprint_stamp]

theorem mem_dedup (h : ∀ f ∈ fs, Timed f) : r ∈ dedupFindings cm digest now fs ↔
    ∃ f ∈ fs, summary mergeFinding ((fs.filter fun e => print cm digest e = print cm digest f).map
      (stamp cm digest)) = some r := by
  rw [dedup_eq h, mem_values]
  constructor
  · rintro ⟨v, hv, hr⟩
    obtain ⟨f, hf, rfl⟩ := List.mem_map.mp hv
    rw [fingerprint_stamp, filter_stamp] at hr
    exact ⟨f, hf, hr⟩
  · rintro ⟨f, hf, hr⟩
    refine ⟨_, List.mem_map_of_mem hf, ?_⟩
    rwa [fingerprint_stamp, filter_stamp]

/-- A deduplicated finding stands for those with its fingerprint. -/
theorem summary_of_mem (h : ∀ f ∈ fs, Timed f) (hr : r ∈ dedupFindings cm digest now fs) :
    summary mergeFinding ((fs.filter fun e => print cm digest e = r.fingerprint).map
      (stamp cm digest)) = some r := by
  obtain ⟨f, -, hsummary⟩ := (mem_dedup h).mp hr
  have hkey : r.fingerprint = print cm digest f := by
    rw [← filter_stamp] at hsummary
    exact key_summary (fun a b _ => fingerprint_merge a b) hsummary
  rwa [hkey]

theorem map_fingerprint_dedup (h : ∀ f ∈ fs, Timed f) :
    (dedupFindings cm digest now fs).map Finding.fingerprint =
      firsts id (fs.map (print cm digest)) := by
  rw [dedup_eq h, map_key_values fun a b _ => fingerprint_merge a b, List.map_map]
  exact congrArg (firsts id) (List.map_congr_left fun f _ => fingerprint_stamp f)

theorem mem_stamped {B : Type} {obs : Finding → B} {n : B} (h : ∀ f ∈ fs, Timed f)
    (hobs : ∀ f, Timed f → obs (stamp cm digest f) = obs f) (k : String) :
    (∃ e ∈ (fs.filter fun e => print cm digest e = k).map (stamp cm digest), obs e = n) ↔
      ∃ f ∈ fs, print cm digest f = k ∧ obs f = n := by
  constructor
  · rintro ⟨e, he, rfl⟩
    obtain ⟨f, hf, rfl⟩ := List.mem_map.mp he
    obtain ⟨hmem, hk⟩ := List.mem_filter.mp hf
    exact ⟨f, hmem, of_decide_eq_true hk, (hobs f (h f hmem)).symm⟩
  · rintro ⟨f, hf, hk, rfl⟩
    exact ⟨_, List.mem_map_of_mem (List.mem_filter.mpr ⟨hf, decide_eq_true hk⟩), hobs f (h f hf)⟩

/-- Where a merge takes the greater one, a deduplicated finding has the greatest. -/
theorem greatest_dedup {B : Type} [LinearOrder B] (obs : Finding → B)
    (hmerge : ∀ a b, obs (mergeFinding a b) = max (obs a) (obs b))
    (hstamp : ∀ f, Timed f → obs (stamp cm digest f) = obs f) (h : ∀ f ∈ fs, Timed f)
    (hr : r ∈ dedupFindings cm digest now fs) :
    IsGreatest {n | ∃ f ∈ fs, print cm digest f = r.fingerprint ∧ obs f = n} (obs r) := by
  have hgreatest := isGreatest_summary hmerge (summary_of_mem h hr)
  have hset : {n | ∃ f ∈ fs, print cm digest f = r.fingerprint ∧ obs f = n} =
      {n | ∃ e ∈ (fs.filter fun e => print cm digest e = r.fingerprint).map (stamp cm digest),
        obs e = n} :=
    Set.ext fun n => (mem_stamped h hstamp _).symm
  rwa [hset]

theorem rank_dedup (h : ∀ f ∈ fs, Timed f) (hr : r ∈ dedupFindings cm digest now fs) :
    IsGreatest {n | ∃ f ∈ fs, print cm digest f = r.fingerprint ∧ severityRank f.severity = n}
      (severityRank r.severity) :=
  greatest_dedup (fun f => severityRank f.severity) rank_merge (fun _ _ => rfl) h hr

theorem last_dedup (h : ∀ f ∈ fs, Timed f) (hr : r ∈ dedupFindings cm digest now fs) :
    IsGreatest {n | ∃ f ∈ fs, print cm digest f = r.fingerprint ∧ f.lastSeen = n} r.lastSeen :=
  greatest_dedup Finding.lastSeen last_merge (fun _ hf => if_neg hf.last) h hr

theorem first_dedup (h : ∀ f ∈ fs, Timed f) (hr : r ∈ dedupFindings cm digest now fs) :
    IsLeast {n | ∃ f ∈ fs, print cm digest f = r.fingerprint ∧ f.firstSeen = n} r.firstSeen :=
  greatest_dedup (fun f => OrderDual.toDual f.firstSeen)
    (fun a b => congrArg OrderDual.toDual (first_merge a b))
    (fun _ hf => congrArg OrderDual.toDual (if_neg hf.first)) h hr

theorem kev_dedup (h : ∀ f ∈ fs, Timed f) (hr : r ∈ dedupFindings cm digest now fs) :
    r.kev = true ↔ ∃ f ∈ fs, print cm digest f = r.fingerprint ∧ f.kev = true := by
  have hany := summary_rule (fun vs r => r.kev = true ↔ ∃ f ∈ vs, f.kev = true)
    (fun _ => by simp only [List.mem_singleton, exists_eq_left])
    (fun _ _ _ ih => by
      simp only [kev_merge, Bool.or_eq_true, ih, List.mem_append, List.mem_singleton, or_and_right,
        exists_or, exists_eq_left]) (summary_of_mem h hr)
  exact hany.trans (mem_stamped h (fun _ _ => rfl) _)

theorem stamped_dedup (h : ∀ f ∈ fs, Timed f) (hr : r ∈ dedupFindings cm digest now fs) :
    Stamped cm digest r := by
  refine stamped_summary (fun e he => ?_) (summary_of_mem h hr)
  obtain ⟨f, hf, rfl⟩ := List.mem_map.mp he
  exact stamped_stamp (h f (List.mem_filter.mp hf).1)

/-- A second pass stamps the findings once more. -/
theorem dedup_dedup {now' : Nat → Time} (h : ∀ f ∈ fs, Timed f) :
    dedupFindings cm digest now' (dedupFindings cm digest now fs) =
      (dedupFindings cm digest now fs).map (stamp cm digest) := by
  have hnodup : (((dedupFindings cm digest now fs).map (stamp cm digest)).map
      Finding.fingerprint).Nodup := by
    have hprints : ((dedupFindings cm digest now fs).map (stamp cm digest)).map
        Finding.fingerprint = (dedupFindings cm digest now fs).map Finding.fingerprint := by
      rw [List.map_map]
      refine List.map_congr_left fun r hr => ?_
      rw [Function.comp_apply, stamp, finalize_of_stamped (stamped_dedup h hr)]
    rw [hprints, dedup_eq h]
    exact nodup_map_key_values fun a b _ => fingerprint_merge a b
  have habsorbed : (group Finding.fingerprint mergeFinding
      ((dedupFindings cm digest now fs).map (stamp cm digest) ++ [])).values =
        (dedupFindings cm digest now fs).map (stamp cm digest) :=
    values_absorbed hnodup (List.forall_mem_nil _)
  rw [List.append_nil] at habsorbed
  rw [dedup_eq fun r hr => (stamped_dedup h hr).timed, habsorbed]

theorem stamp_eq_self_iff (h : Stamped cm digest r) :
    stamp cm digest r = r ↔ r.risk.recommendedAction = r.recommendedAction := by
  rw [stamp, finalize_of_stamped h]
  constructor
  · intro heq
    have hrisk := congrArg (fun r => r.risk.recommendedAction) heq
    exact hrisk.symm
  · intro heq
    have hrisk : ({ r.risk with recommendedAction := r.recommendedAction } : RiskBreakdown) =
        r.risk := by
      rw [← heq]
    rw [hrisk]

/-- A second pass changes nothing if risk and finding recommend the same action. -/
theorem idempotent_iff {now' : Nat → Time} (h : ∀ f ∈ fs, Timed f) :
    dedupFindings cm digest now' (dedupFindings cm digest now fs) =
      dedupFindings cm digest now fs ↔
    ∀ r ∈ dedupFindings cm digest now fs, r.risk.recommendedAction = r.recommendedAction := by
  rw [dedup_dedup h]
  constructor
  · intro heq r hr
    have hmap := List.map_inj_left.mp (heq.trans (List.map_id _).symm)
    exact (stamp_eq_self_iff (stamped_dedup h hr)).mp (hmap r hr)
  · intro hall
    refine (List.map_congr_left fun r hr => ?_).trans (List.map_id _)
    exact (stamp_eq_self_iff (stamped_dedup h hr)).mpr (hall r hr)

theorem worst_of_map {l : List Finding} (hf : Worst (l.map (stamp cm digest)) r) :
    ∃ g, Worst l g ∧ stamp cm digest g = r := by
  obtain ⟨before, after, heq, hbefore, hafter⟩ := hf
  obtain ⟨before', rest, rfl, rfl, hrest⟩ := List.map_eq_append_iff.mp heq
  obtain ⟨g, after', rfl, rfl, rfl⟩ := List.map_eq_cons_iff.mp hrest
  exact ⟨g, ⟨before', after', rfl, fun e he => hbefore (stamp cm digest e) (List.mem_map_of_mem he),
    fun e he => hafter (stamp cm digest e) (List.mem_map_of_mem he)⟩, rfl⟩

/-- The actions of a deduplicated finding are those of the first and of the worst one. -/
theorem actions_of_mem (h : ∀ f ∈ fs, Timed f) (hr : r ∈ dedupFindings cm digest now fs) :
    ∃ f g, First (print cm digest) fs f ∧ print cm digest f = r.fingerprint ∧
      Worst (fs.filter fun e => print cm digest e = r.fingerprint) g ∧
      r.recommendedAction = action cm f ∧ r.risk.recommendedAction = action cm g := by
  obtain ⟨⟨e, hhead, haction⟩, w, hworst, hrisk, -⟩ := summary_actions (summary_of_mem h hr)
  obtain ⟨g, hg, rfl⟩ := worst_of_map hworst
  rw [List.head?_map, Option.map_eq_some_iff] at hhead
  obtain ⟨f, hf, rfl⟩ := hhead
  rw [List.head?_filter] at hf
  have hprint : print cm digest f = r.fingerprint := by simpa using List.find?_some hf
  refine ⟨f, g, ?_, hprint, hg, haction, congrArg RiskBreakdown.recommendedAction hrisk⟩
  rw [First, hprint]
  exact hf

theorem exists_dedup (h : ∀ f ∈ fs, Timed f) (hf : f ∈ fs) :
    ∃ r ∈ dedupFindings cm digest now fs, r.fingerprint = print cm digest f := by
  have hmem : print cm digest f ∈ firsts id (fs.map (print cm digest)) := by
    have hfirst : print cm digest f ∈ (firsts id (fs.map (print cm digest))).map id :=
      mem_map_firsts.mpr (List.mem_map_of_mem (List.mem_map_of_mem hf))
    rwa [List.map_id] at hfirst
  have hprints : (dedupFindings cm digest now fs).map _ = _ := map_fingerprint_dedup h
  rw [← hprints] at hmem
  exact List.mem_map.mp hmem

theorem agreeing_iff (h : ∀ f ∈ fs, Timed f) :
    (∀ r ∈ dedupFindings cm digest now fs, r.risk.recommendedAction = r.recommendedAction) ↔
      Agreeing cm digest fs := by
  constructor
  · intro hall f g hfirst hworst
    obtain ⟨r, hr, hprint⟩ : ∃ r ∈ dedupFindings cm digest now fs, _ := exists_dedup h hfirst.mem
    obtain ⟨f', g', hfirst', hprint', hworst', hf, hg⟩ := actions_of_mem h hr
    rw [hprint] at hprint' hworst'
    rw [hfirst.eq hfirst' hprint'.symm, worst_unique hworst hworst', ← hf, ← hg, hall r hr]
  · intro hagree r hr
    obtain ⟨f, g, hfirst, hprint, hworst, hf, hg⟩ := actions_of_mem h hr
    rw [← hprint] at hworst
    rw [hf, hg, hagree f g hfirst hworst]

theorem perm_dedup {now' : Nat → Time} (h : ∀ f ∈ fs, Timed f) (hperm : gs.Perm fs)
    (hr : r ∈ dedupFindings cm digest now fs) :
    ∃ r' ∈ dedupFindings cm digest now' gs, r'.fingerprint = r.fingerprint ∧
      severityRank r'.severity = severityRank r.severity ∧ r'.firstSeen = r.firstSeen ∧
      r'.lastSeen = r.lastSeen ∧ r'.kev = r.kev := by
  have hgs : ∀ f ∈ gs, Timed f := fun f hf => h f (hperm.mem_iff.mp hf)
  obtain ⟨f, -, hfirst, hprint, -⟩ := actions_of_mem h hr
  obtain ⟨r', hr', hprint'⟩ : ∃ r' ∈ dedupFindings cm digest now' gs, _ :=
    exists_dedup hgs (hperm.mem_iff.mpr hfirst.mem)
  rw [hprint] at hprint'
  have hmem : ∀ p : Finding → Prop, (∃ e ∈ gs, print cm digest e = r'.fingerprint ∧ p e) ↔
      ∃ e ∈ fs, print cm digest e = r.fingerprint ∧ p e := by
    intro p
    rw [hprint']
    exact exists_congr fun e => and_congr_left' hperm.mem_iff
  have hrank := rank_dedup hgs hr'
  have hfirst' := first_dedup hgs hr'
  have hlast := last_dedup hgs hr'
  have hkev := kev_dedup hgs hr'
  simp only [hmem] at hrank hfirst' hlast hkev
  exact ⟨r', hr', hprint', hrank.unique (rank_dedup h hr), hfirst'.unique (first_dedup h hr),
    hlast.unique (last_dedup h hr), Bool.eq_iff_iff.mpr (hkev.trans (kev_dedup h hr).symm)⟩

theorem thresholds_dedup {quote : String → String} {gate : GateResult} (h : ∀ f ∈ fs, Timed f) :
    FailAlike pl quote gate (dedupFindings pl.cases digest now fs) fs := by
  refine failAlike_of_meets fun t _ => ?_
  constructor
  · rintro ⟨x, hx, hle⟩
    obtain ⟨r, hr, rfl⟩ := List.mem_map.mp hx
    obtain ⟨f, hf, -, hrank⟩ := (rank_dedup h hr).1
    exact ⟨_, List.mem_map_of_mem hf, hle.trans_eq hrank.symm⟩
  · rintro ⟨x, hx, hle⟩
    obtain ⟨f, hf, rfl⟩ := List.mem_map.mp hx
    obtain ⟨r, hr, hprint⟩ : ∃ r ∈ dedupFindings pl.cases digest now fs, _ := exists_dedup h hf
    have hupper := (rank_dedup h hr).2 ⟨f, hf, hprint.symm, rfl⟩
    exact ⟨_, List.mem_map_of_mem hr, hle.trans hupper⟩

/-- Deduplication keeps all that it is to keep exactly if, of each fingerprint, the first finding
and the worst one recommend the same action. -/
theorem dedup_lawful_iff (pl : Platform) (digest : List UInt8 → String) (now : Nat → Time)
    (fs : List Finding) (htimed : ∀ f ∈ fs, Timed f) :
    Lawful pl digest now fs ↔ Agreeing pl.cases digest fs := by
  have hagree : (∀ r ∈ dedupFindings pl.cases digest now fs, _) ↔ _ := agreeing_iff htimed
  rw [← hagree]
  constructor
  · exact fun h => (idempotent_iff htimed).mp (h.idempotent now)
  · intro h
    exact {
      prints := map_fingerprint_dedup htimed
      rank := fun r hr => rank_dedup htimed hr
      firstSeen := fun r hr => first_dedup htimed hr
      lastSeen := fun r hr => last_dedup htimed hr
      kev := fun r hr => kev_dedup htimed hr
      idempotent := fun now' => (idempotent_iff htimed).mpr h
      anyOrder := fun gs hperm now' r hr => perm_dedup htimed hperm hr
      thresholds := fun quote gate => thresholds_dedup htimed
      finalized := fun f t t' ht => finalize_finalize (.inl ht) }

def mild : Finding where
  algorithm := "RSA"
  severity := "LOW"
  recommendedAction := "Rotate the key"
  createdAt := 1
  updatedAt := 1
  firstSeen := 1
  lastSeen := 1

def severe : Finding :=
  { mild with severity := "CRITICAL", recommendedAction := "Replace the key" }

theorem timed_samples : ∀ f ∈ [mild, severe], Timed f := by
  have hmild : Timed mild := ⟨by decide, by decide, by decide, by decide⟩
  refine List.forall_mem_cons.mpr ⟨hmild, List.forall_mem_singleton.mpr ?_⟩
  exact ⟨hmild.created, hmild.updated, hmild.first, hmild.last⟩

theorem dedup_lawful_samples :
    Lawful ⟨asciiCase, '/'⟩ Dedup.sampleDigest (fun n => n + 1) [mild, severe] ↔
      Agreeing asciiCase Dedup.sampleDigest [mild, severe] :=
  dedup_lawful_iff ⟨asciiCase, '/'⟩ Dedup.sampleDigest (fun n => n + 1) [mild, severe] timed_samples

/-- The risk of the worse finding comes with the action of the first one in a second pass. -/
theorem dedup_twice_differs :
    ¬ Lawful ⟨asciiCase, '/'⟩ Dedup.sampleDigest (fun n => n + 1) [mild, severe] := by
  intro h
  have hprint : print asciiCase Dedup.sampleDigest severe =
      print asciiCase Dedup.sampleDigest mild := by
    rw [print, print, identity, identity]
    rfl
  have hagree := (agreeing_iff timed_samples).mp
    ((idempotent_iff timed_samples).mp (h.idempotent fun n => n + 1))
  have hfilter : ([mild, severe].filter fun e => print asciiCase Dedup.sampleDigest e =
      print asciiCase Dedup.sampleDigest mild) = [mild, severe] := by
    rw [List.filter_eq_self]
    exact List.forall_mem_cons.mpr ⟨decide_eq_true rfl,
      List.forall_mem_singleton.mpr (decide_eq_true hprint)⟩
  have hworst : Worst [mild, severe] severe :=
    ⟨[mild], [], rfl, List.forall_mem_singleton.mpr (by decide), List.forall_mem_nil _⟩
  rw [← hfilter] at hworst
  have heq := hagree mild severe (first_cons.mpr (.inl ⟨rfl, rfl⟩)) hworst
  exact absurd heq (by decide)

end Laws

end RivicQ.Properties.Merges
