import Mathlib.Data.List.Nodup
import RivicQ.Database.Migrate
import RivicQ.Lib.Programs

namespace RivicQ.Properties.Resumption

open RivicQ.Lib.Programs RivicQ.Lib.Interruptions RivicQ.Database.Migrate

variable {Schema : Type} (engine : Engine Schema) (sha256Hex : String → String)

/-- What is recorded of migrations, besides times. -/
def records (d : Contents Schema) : List (String × String × String) :=
  d.ledger.elim [] fun l => l.rows.map fun r => (r.id, r.name, r.checksum)

def record (m : Migration) : String × String × String :=
  (m.id, m.name, checksumMigration sha256Hex m)

def effectFrom (stmts : List String) (s : Schema) : Except String Schema :=
  stmts.foldlM (fun s stmt => engine stmt s) s

/-- What migrations make of a schema, one after the other. -/
def effects (migrations : List Migration) (s : Schema) : Except String Schema :=
  migrations.foldlM (fun s m => effectFrom engine m.statements s) s

/-- The contents in which migrations have been fully applied, and recorded, in order. -/
structure Extends (d : Contents Schema) (done : List Migration) (d' : Contents Schema) : Prop where
  schema : effects engine done d.schema = .ok d'.schema
  records : records d' = records d ++ done.map (record sha256Hex)

/-- The checksum that is recorded of a migration. -/
def known (d : Contents Schema) (id : String) : Option String :=
  ((records d).find? fun r => r.1 = id).map fun r => r.2.2

/-- The migrations that are to be applied: those that are not recorded, up to the first that is
recorded with another checksum. -/
def plan (known : String → Option String) : List Migration → List Migration
  | [] => []
  | m :: migrations =>
    match known m.id with
    | some sum => if sum = checksumMigration sha256Hex m then plan known migrations else []
    | none => m :: plan known migrations

def Drifted (known : String → Option String) (migrations : List Migration) : Prop :=
  ∃ m ∈ migrations, ∃ sum, known m.id = some sum ∧ sum ≠ checksumMigration sha256Hex m

def connect (d : Contents Schema) : World Schema := ⟨d, none, 0⟩

/-- A run that is interrupted after a number of requests. -/
structure Attempt where
  env : Env
  requests : Nat

variable (migrations : List Migration)

def attempt (d : Contents Schema) (a : Attempt) : Contents Schema :=
  (cutOff (handle engine a.env) a.requests (applyMigrations sha256Hex migrations)
    (connect d)).committed

/-- What is committed after a number of attempts. -/
def after (attempts : List Attempt) (d : Contents Schema) : Contents Schema :=
  attempts.foldl (attempt engine sha256Hex migrations) d

/-- A run that goes on until it returns. -/
def finished (env : Env) (d : Contents Schema) : Except String Unit × World Schema :=
  run (handle engine env) (applyMigrations sha256Hex migrations) (connect d)

/-- Surroundings in which nothing fails. -/
def smooth (clock : Nat → Time) : Env := ⟨clock, fun _ => .served⟩

variable {engine} {sha256Hex} {migrations} {env : Env} {w : World Schema} {d c : Contents Schema}

section Contents

variable {done more : List Migration}

theorem extends_refl (d : Contents Schema) : Extends engine sha256Hex d [] d :=
  ⟨rfl, (List.append_nil _).symm⟩

theorem known_of_extends (h : Extends engine sha256Hex d [] c) : known c = known d := by
  funext id
  rw [known, known, h.records, List.map_nil, List.append_nil]

theorem effects_append (done more : List Migration) (s : Schema) :
    effects engine (done ++ more) s = (effects engine done s).bind (effects engine more) := by
  rw [effects, List.foldlM_append]
  rfl

theorem extends_trans {d' : Contents Schema} (h : Extends engine sha256Hex d done c)
    (h' : Extends engine sha256Hex c more d') :
    Extends engine sha256Hex d (done ++ more) d' := by
  constructor
  · rw [effects_append, h.schema]
    exact h'.schema
  · rw [h'.records, h.records, List.map_append, List.append_assoc]

end Contents

section Serving

theorem rows_insert {l l' : Ledger} {r : Row} (h : l.insert r = some l') :
    l'.rows = l.rows ++ [r] := by
  unfold Ledger.insert at h
  split at h
  · exact absurd h nofun
  · rw [← Option.some.inj h]

theorem committed_handle {o : Op} (ht : o ≠ .createTable) (hc : o ≠ .commit) (w : World Schema) :
    (handle engine env o w).2.committed = w.committed := by
  have hserve : (serve engine env o w).2.committed = w.committed := by
    cases o with
    | createTable => exact absurd rfl ht
    | commit => exact absurd rfl hc
    | exec stmt =>
      rw [serve]
      split
      · rfl
      · split <;> rfl
    | insert id name checksum durationMs =>
      rw [serve]
      split
      · rfl
      · split
        · rfl
        · split <;> rfl
    | _ => rfl
  unfold handle
  split
  · exact hserve
  · rfl
  · exact hserve

/-- A request that is answered has been served. -/
theorem served_of_ok {o : Op} (hfailed : ∀ err, failed env err w.ticks o ≠ (handle engine env o w).1) :
    handle engine env o w =
      ((serve engine env o w).1, { (serve engine env o w).2 with ticks := w.ticks + 1 }) := by
  unfold handle at hfailed ⊢
  split
  · rfl
  · rename_i err herr
    rw [herr] at hfailed
    exact absurd rfl (hfailed err)
  · rename_i err herr
    rw [herr] at hfailed
    exact absurd rfl (hfailed err)

theorem pending_now (w : World Schema) : (handle engine env .now w).2.pending = w.pending := by
  unfold handle
  split <;> rfl

theorem begin_ok (h : (handle engine env .begin w).1 = .ok ()) :
    (handle engine env .begin w).2.pending = some w.committed := by
  rw [served_of_ok (fun err herr => absurd (herr.trans h) nofun)]
  rfl

theorem exec_ok {stmt : String} (hp : w.pending = some d)
    (h : (handle engine env (.exec stmt) w).1 = .ok ()) :
    ∃ s, engine stmt d.schema = .ok s ∧
      (handle engine env (.exec stmt) w).2.pending = some { d with schema := s } := by
  have hserved := @served_of_ok _ engine env w (.exec stmt) fun err herr =>
    absurd (herr.trans h) nofun
  rw [hserved, serve, hp] at h ⊢
  cases hs : engine stmt d.schema with
  | error err =>
    simp only [hs] at h
    exact absurd h nofun
  | ok s =>
    refine ⟨s, rfl, ?_⟩
    simp only [hs]

theorem insert_ok {id name checksum : String} {durationMs : Int} (hp : w.pending = some d)
    (h : (handle engine env (.insert id name checksum durationMs) w).1 = .ok ()) :
    ∃ d', (handle engine env (.insert id name checksum durationMs) w).2.pending = some d' ∧
      d'.schema = d.schema ∧ records d' = records d ++ [(id, name, checksum)] := by
  have hserved := @served_of_ok _ engine env w (.insert id name checksum durationMs) fun err herr =>
    absurd (herr.trans h) nofun
  rw [hserved, serve, hp] at h ⊢
  cases hl : d.ledger with
  | none =>
    simp only [hl] at h
    exact absurd h nofun
  | some l =>
    simp only [hl] at h ⊢
    cases hinsert : l.insert ⟨id, name, checksum, env.clock w.ticks, durationMs⟩ with
    | none =>
      simp only [hinsert] at h
      exact absurd h nofun
    | some l' =>
      refine ⟨_, rfl, rfl, ?_⟩
      rw [records, records, hl]
      simp only [Option.elim_some, rows_insert hinsert, List.map_append, List.map_cons, List.map_nil]

/-- The creation of the table changes nothing that is recorded. -/
theorem createTable_extends (w : World Schema) :
    Extends engine sha256Hex w.committed [] (handle engine env .createTable w).2.committed := by
  have hserve : Extends engine sha256Hex w.committed []
      (serve engine env .createTable w).2.committed := by
    refine ⟨rfl, ?_⟩
    rw [List.map_nil, List.append_nil, serve, records, records]
    cases w.committed.ledger <;> rfl
  unfold handle
  split
  · exact hserve
  · exact extends_refl _
  · exact hserve

theorem scan_ok {applied : List (String × String)}
    (h : (handle engine env .scan w).1 = .ok applied) : lookup applied = known w.committed := by
  have hserved := @served_of_ok _ engine env w .scan fun err herr => absurd (herr.trans h) nofun
  rw [hserved] at h
  have happlied := Except.ok.inj h
  rw [← happlied]
  funext id
  rw [lookup, known, records]
  cases w.committed.ledger with
  | none => rfl
  | some l =>
    rw [Option.elim_some, Option.elim_some, List.find?_map, List.find?_map, Option.map_map,
      Option.map_map]
    rfl

/-- A transaction is committed, or nothing happens. -/
theorem commit_cases (hp : w.pending = some d) :
    ((handle engine env .commit w).2.committed = w.committed ∧
      (handle engine env .commit w).1 ≠ .ok ()) ∨ (handle engine env .commit w).2.committed = d := by
  have hserve : (serve engine env .commit w).2.committed = d := by rw [serve, hp]
  unfold handle
  split
  · exact .inr hserve
  · exact .inl ⟨rfl, nofun⟩
  · exact .inr hserve

end Serving

section Safely

variable {α β : Type} {J : Contents Schema → Prop} {Q : α → World Schema → Prop}
  {Q' : β → World Schema → Prop} {p : Prog α} {k : α → Prog β}

variable (engine env J) in
/-- What is committed satisfies `J` throughout, and a value is returned only with `Q`. -/
def Safely (Q : α → World Schema → Prop) (p : Prog α) (w : World Schema) : Prop :=
  Always (handle engine env) (fun w => J w.committed) (fun r w' => ∀ a, r = .ok a → Q a w') p w

theorem safely_fail (hJ : J w.committed) (err : String) : Safely engine env J Q (fail err) w :=
  always_pure.mpr ⟨hJ, nofun⟩

theorem safely_done {a : α} (hJ : J w.committed) (hQ : Q a w) : Safely engine env J Q (done a) w := by
  refine always_pure.mpr ⟨hJ, fun b hb => ?_⟩
  cases hb
  exact hQ

theorem safely_mono {J' : Contents Schema → Prop} {Q'' : α → World Schema → Prop}
    (hJ : ∀ d, J d → J' d) (hQ : ∀ a w, Q a w → Q'' a w) (hp : Safely engine env J Q p w) :
    Safely engine env J' Q'' p w := by
  refine always_mono ?_ ?_ hp
  · exact fun w => hJ w.committed
  · exact fun _ _ h a ha => hQ a _ (h a ha)

theorem safely_request {o : Op} {k : o.Reply → Prog β} (hJ : J w.committed)
    (hk : Safely engine env J Q' (k (handle engine env o w).1) (handle engine env o w).2) :
    Safely engine env J Q' ((ask o).bind k) w :=
  always_request.mpr ⟨hJ, hk⟩

theorem safely_wrapping (context : String)
    (hp : Safely engine env J (fun a w' => J w'.committed → Safely engine env J Q' (k a) w') p w) :
    Safely engine env J Q' (wrapping context p k) w := by
  refine always_bind (always_mono (fun _ h => h) (fun r w' h => ?_) (always_and hp))
  cases r with
  | error err => exact safely_fail h.1 _
  | ok a => exact h.2 a rfl h.1

theorem safely_rollingBack (context : String)
    (hp : Safely engine env J (fun a w' => J w'.committed → Safely engine env J Q' (k a) w') p w) :
    Safely engine env J Q' (rollingBack context p k) w := by
  refine always_bind (always_mono (fun _ h => h) (fun r w' h => ?_) (always_and hp))
  cases r with
  | error err =>
    refine safely_request h.1 (safely_fail ?_ _)
    rw [@committed_handle _ engine env .rollback nofun nofun]
    exact h.1
  | ok a => exact h.2 a rfl h.1

end Safely

section Runs

variable {J : Contents Schema → Prop} {m : Migration} {migrations : List Migration}

/-- The statements of a migration have their effect in the transaction. -/
theorem safely_execFrom (hJ : J w.committed) (hp : w.pending = some d) (i : Nat)
    (stmts : List String) : Safely engine env J (fun _ w' => w'.committed = w.committed ∧
      ∃ s, effectFrom engine stmts d.schema = .ok s ∧ w'.pending = some { d with schema := s })
      (execFrom m i stmts) w := by
  induction stmts generalizing i w d with
  | nil => exact safely_done hJ ⟨rfl, d.schema, rfl, hp⟩
  | cons stmt stmts ih =>
    have hcommitted := @committed_handle _ engine env (.exec stmt) nofun nofun w
    refine safely_rollingBack _ (safely_request hJ (always_pure.mpr ⟨hcommitted ▸ hJ, ?_⟩))
    intro _ hok hJ'
    obtain ⟨s, hs, hp'⟩ := exec_ok hp hok
    refine safely_mono (fun _ h => h) (fun _ w' h => ?_) (ih hJ' hp' (i + 1))
    obtain ⟨hcommitted', s', hs', hpending⟩ := h
    refine ⟨hcommitted'.trans hcommitted, s', ?_, hpending⟩
    rw [effectFrom, List.foldlM_cons, hs]
    exact hs'

/-- A migration takes effect and is recorded at once. -/
theorem safely_applyMigration (hJ : J w.committed)
    (hm : ∀ c, Extends engine sha256Hex w.committed [m] c → J c) :
    Safely engine env J (fun _ w' => Extends engine sha256Hex w.committed [m] w'.committed)
      (applyMigration m (checksumMigration sha256Hex m)) w := by
  have hstart := @committed_handle _ engine env .now nofun nofun w
  refine safely_request hJ ?_
  generalize handle engine env .now w = started at hstart ⊢
  obtain ⟨start, w₁⟩ := started
  replace hstart : w₁.committed = w.committed := hstart
  rw [← hstart] at hJ hm ⊢
  have hbegun := @committed_handle _ engine env .begin nofun nofun w₁
  refine safely_wrapping _ (safely_request hJ (always_pure.mpr ⟨hbegun ▸ hJ, ?_⟩))
  intro _ hok hJ₂
  refine safely_wrapping _ (safely_mono (fun _ h => h) (fun _ w₃ h hJ₃ => ?_)
    (safely_execFrom hJ₂ (begin_ok hok) 0 m.statements))
  obtain ⟨hexecuted, s, hs, hpending⟩ := h
  have hended := @committed_handle _ engine env .now nofun nofun w₃
  have hpending := (@pending_now _ engine env w₃).trans hpending
  refine safely_request hJ₃ ?_
  generalize handle engine env .now w₃ = ended at hended hpending ⊢
  obtain ⟨t, w₄⟩ := ended
  replace hended : w₄.committed = w₁.committed := hended.trans (hexecuted.trans hbegun)
  replace hpending : w₄.pending = some { w₁.committed with schema := s } := hpending
  have hJ₄ : J w₄.committed := hended ▸ hJ
  have hinserted := @committed_handle _ engine env (.insert m.id m.name
    (checksumMigration sha256Hex m) (milliseconds (t - start))) nofun nofun w₄
  refine safely_rollingBack _ (safely_request hJ₄ (always_pure.mpr ⟨hinserted ▸ hJ₄, ?_⟩))
  intro _ hok hJ₅
  obtain ⟨d', hpending₅, hschema, hrecords⟩ := insert_ok hpending hok
  have hextends : Extends engine sha256Hex w₁.committed [m] d' := by
    constructor
    · rw [effects, List.foldlM_cons, hs, hschema]
      rfl
    · exact hrecords
  -- the transaction as a whole is what the migration makes of the contents
  refine safely_wrapping _ (safely_request hJ₅ ?_)
  obtain ⟨hsame, hnot⟩ | hcommitted := @commit_cases _ engine env _ _ hpending₅
  · refine always_pure.mpr ⟨hsame ▸ hJ₅, fun _ hok => absurd hok hnot⟩
  · have hJ₆ := hm d' hextends
    rw [← hcommitted] at hJ₆ hextends
    exact always_pure.mpr ⟨hJ₆, fun _ _ hJ₆ => safely_done hJ₆ hextends⟩

variable {done total : List Migration} {applied : List (String × String)}

variable (engine sha256Hex d total) in
/-- Some of the migrations that were to be applied have been, and nothing else. -/
def Progress (c : Contents Schema) : Prop :=
  ∃ done, done <+: total ∧ Extends engine sha256Hex d done c

theorem safely_applyFrom (hdone : Extends engine sha256Hex d done w.committed)
    (htotal : done ++ plan sha256Hex (lookup applied) migrations = total) :
    Safely engine env (Progress engine sha256Hex d total)
      (fun _ w' => Extends engine sha256Hex d total w'.committed ∧
        ¬ Drifted sha256Hex (lookup applied) migrations)
      (applyFrom sha256Hex applied migrations) w := by
  have hJ : Progress engine sha256Hex d total w.committed := ⟨done, ⟨_, htotal⟩, hdone⟩
  induction migrations generalizing done w with
  | nil =>
    rw [plan, List.append_nil] at htotal
    refine safely_done hJ ⟨htotal ▸ hdone, ?_⟩
    rintro ⟨m, hm, -⟩
    exact absurd hm List.not_mem_nil
  | cons m migrations ih =>
    have hdrifted : (∀ sum, lookup applied m.id = some sum → sum = checksumMigration sha256Hex m) →
        ¬ Drifted sha256Hex (lookup applied) migrations →
        ¬ Drifted sha256Hex (lookup applied) (m :: migrations) := by
      rintro hsum hnot ⟨m', hm', sum, hlookup, hne⟩
      obtain rfl | hm' := List.mem_cons.mp hm'
      · exact hne (hsum sum hlookup)
      · exact hnot ⟨m', hm', sum, hlookup, hne⟩
    rw [plan] at htotal
    rw [applyFrom]
    cases hlookup : lookup applied m.id with
    | some sum =>
      rw [hlookup] at hdrifted
      simp only [hlookup] at htotal ⊢
      split
      · exact safely_fail hJ _
      · rename_i hsum
        rw [not_not] at hsum
        rw [if_pos hsum] at htotal
        refine safely_mono (fun _ h => h) (fun _ w' h => ⟨h.1, ?_⟩) (ih hdone htotal hJ)
        exact hdrifted (fun sum' hsum' => Option.some.inj hsum' ▸ hsum) h.2
    | none =>
      rw [hlookup] at hdrifted
      simp only [hlookup] at htotal ⊢
      have htotal' : (done ++ [m]) ++ plan sha256Hex (lookup applied) migrations = total := by
        rw [List.append_assoc]
        exact htotal
      refine safely_wrapping _ (safely_mono (fun _ h => h) (fun _ w' h hJ' => ?_)
        (safely_applyMigration hJ fun c hc => ⟨done ++ [m], ⟨_, htotal'⟩, extends_trans hdone hc⟩))
      refine safely_mono (fun _ h => h) (fun _ w'' h' => ⟨h'.1, hdrifted nofun h'.2⟩)
        (ih (extends_trans hdone h) htotal' hJ')

/-- A run goes through the plan, and comes to its end if nothing differs. -/
theorem safely_applyMigrations (d : Contents Schema) :
    Safely engine env (Progress engine sha256Hex d (plan sha256Hex (known d) migrations))
      (fun _ w' => Extends engine sha256Hex d (plan sha256Hex (known d) migrations) w'.committed ∧
        ¬ Drifted sha256Hex (known d) migrations)
      (applyMigrations sha256Hex migrations) (connect d) := by
  have hnone : ∀ {c}, Extends engine sha256Hex d [] c →
      Progress engine sha256Hex d (plan sha256Hex (known d) migrations) c :=
    fun h => ⟨[], List.nil_prefix, h⟩
  have hcreated := @createTable_extends _ engine sha256Hex env (connect d)
  refine safely_wrapping _ (safely_request (hnone (extends_refl d)) (always_pure.mpr
    ⟨hnone hcreated, fun _ _ hJ₁ => ?_⟩))
  generalize (handle engine env .createTable (connect d)).2 = w₁ at hcreated hJ₁ ⊢
  replace hcreated : Extends engine sha256Hex d [] w₁.committed := hcreated
  have hqueried := @committed_handle _ engine env .query nofun nofun w₁
  refine safely_wrapping _ (safely_request hJ₁ (always_pure.mpr ⟨hqueried ▸ hJ₁,
    fun _ _ hJ₂ => ?_⟩))
  generalize (handle engine env .query w₁).2 = w₂ at hqueried hJ₂ ⊢
  rw [← hqueried] at hcreated
  have hscanned := @committed_handle _ engine env .scan nofun nofun w₂
  refine safely_wrapping _ (safely_request hJ₂ (always_pure.mpr ⟨hscanned ▸ hJ₂,
    fun applied hok hJ₃ => ?_⟩))
  have hlookup : lookup applied = known d := by
    rw [scan_ok hok]
    exact known_of_extends hcreated
  generalize (handle engine env .scan w₂).2 = w₃ at hscanned hJ₃ ⊢
  rw [← hscanned] at hcreated
  have hread := @committed_handle _ engine env .rowsErr nofun nofun w₃
  refine safely_wrapping _ (safely_request hJ₃ (always_pure.mpr ⟨hread ▸ hJ₃,
    fun _ _ hJ₄ => ?_⟩))
  rw [← hread] at hcreated
  rw [← hlookup]
  exact safely_applyFrom hcreated (List.nil_append _)

end Runs

section Plans

variable {sums sums' : String → Option String} {m : Migration} {done : List Migration}

theorem plan_sublist : (plan sha256Hex sums migrations).Sublist migrations := by
  induction migrations with
  | nil => exact List.Sublist.refl []
  | cons m migrations ih =>
    rw [plan]
    split
    · split_ifs
      · exact ih.cons m
      · exact List.nil_sublist _
    · exact ih.cons_cons m

theorem unknown_of_mem_plan (h : m ∈ plan sha256Hex sums migrations) : sums m.id = none := by
  induction migrations with
  | nil => exact absurd h List.not_mem_nil
  | cons m' migrations ih =>
    rw [plan] at h
    split at h
    · split_ifs at h
      · exact ih h
      · exact absurd h List.not_mem_nil
    · obtain rfl | h := List.mem_cons.mp h
      · assumption
      · exact ih h

/-- The plan ends before a migration that is recorded with another checksum. -/
theorem plan_append {sum : String} (hknown : sums m.id = some sum)
    (hsum : sum ≠ checksumMigration sha256Hex m) (before later : List Migration) :
    plan sha256Hex sums (before ++ m :: later) = plan sha256Hex sums before := by
  induction before with
  | nil =>
    rw [List.nil_append, plan.eq_2, hknown]
    exact if_neg hsum
  | cons m' before ih => rw [List.cons_append, plan, plan, ih]

/-- What is recorded after some migrations have been done. -/
def Recorded (sha256Hex : String → String) (sums sums' : String → Option String)
    (done migrations : List Migration) : Prop :=
  ∀ m ∈ migrations, sums' m.id = (sums m.id).or
    (if m ∈ done then some (checksumMigration sha256Hex m) else none)

/-- Migrations that are done do not drift. -/
theorem drifted_resumed (h : Recorded sha256Hex sums sums' done migrations) :
    Drifted sha256Hex sums' migrations ↔ Drifted sha256Hex sums migrations := by
  refine exists_congr fun m => and_congr_right fun hm => exists_congr fun sum => ?_
  refine and_congr_left fun hsum => ?_
  rw [h m hm]
  cases sums m.id with
  | some sum' => rw [Option.some_or]
  | none =>
    rw [Option.none_or]
    split_ifs
    · exact iff_of_false (fun h => hsum (Option.some.inj h).symm) nofun
    · exact Iff.rfl

/-- The plan after some of it has been done is the rest of it. -/
theorem plan_resumed (hids : (migrations.map Migration.id).Nodup)
    (hdone : done <+: plan sha256Hex sums migrations)
    (h : Recorded sha256Hex sums sums' done migrations) :
    done ++ plan sha256Hex sums' migrations = plan sha256Hex sums migrations := by
  induction migrations generalizing done with
  | nil =>
    rw [plan, List.prefix_nil] at hdone
    rw [hdone]
    rfl
  | cons m migrations ih =>
    obtain ⟨hnew, htailIDs⟩ := List.nodup_cons.mp hids
    have hrecorded := h m List.mem_cons_self
    have htail : Recorded sha256Hex sums sums' done migrations :=
      fun m' hm' => h m' (List.mem_cons_of_mem m hm')
    rw [plan] at hdone ⊢
    rw [plan]
    cases hknown : sums m.id with
    | some sum =>
      rw [hknown, Option.some_or] at hrecorded
      simp only [hknown] at hdone
      simp only [hrecorded]
      split_ifs at hdone ⊢ with hsum
      · exact ih htailIDs hdone htail
      · rw [List.prefix_nil.mp hdone]
        rfl
    | none =>
      rw [hknown, Option.none_or] at hrecorded
      simp only [hknown] at hdone
      cases done with
      | nil =>
        rw [if_neg List.not_mem_nil] at hrecorded
        simp only [hrecorded]
        exact congrArg (m :: ·) (ih htailIDs List.nil_prefix htail)
      | cons m' done =>
        obtain ⟨rfl, hrest⟩ := List.cons_prefix_cons.mp hdone
        rw [if_pos List.mem_cons_self] at hrecorded
        simp only [hrecorded, if_true]
        refine congrArg (m' :: ·) (ih htailIDs hrest fun m hm => ?_)
        have hne : m ≠ m' := fun heq => hnew (heq ▸ List.mem_map_of_mem hm)
        rw [htail m hm]
        simp only [List.mem_cons, hne, false_or]

theorem recorded_extends (hids : (migrations.map Migration.id).Nodup) (hsub : done ⊆ migrations)
    (h : Extends engine sha256Hex d done c) :
    Recorded sha256Hex (known d) (known c) done migrations := by
  intro m hm
  unfold known
  rw [h.records, List.find?_append, Option.map_or]
  refine congrArg (Option.or _) ?_
  rw [List.find?_map, Option.map_map]
  have hsame : ∀ m' ∈ done, m'.id = m.id → m' = m := fun m' hm' hid =>
    List.inj_on_of_nodup_map hids (hsub hm') hm hid
  have hfind : done.find? (fun m' => decide (m'.id = m.id)) =
      if m ∈ done then some m else none := by
    cases hfound : done.find? fun m' => decide (m'.id = m.id) with
    | none =>
      refine (if_neg fun hmem => ?_).symm
      exact List.find?_eq_none.mp hfound m hmem (decide_eq_true rfl)
    | some m' =>
      obtain rfl := hsame m' (List.mem_of_find?_eq_some hfound)
        (of_decide_eq_true (List.find?_some hfound :))
      exact (if_pos (List.mem_of_find?_eq_some hfound)).symm
  change (done.find? fun m' => decide (m'.id = m.id)).map (checksumMigration sha256Hex) = _
  rw [hfind]
  split_ifs <;> rfl

end Plans

section Smooth

variable {α β : Type} {h : Handler Calls (World Schema)} {p : Prog α} {k : α → Prog β}
  {clock : Nat → Time} {m : Migration} {w' : World Schema}

theorem run_wrapping {a : α} (context : String) (hp : run h p w = (.ok a, w')) :
    run h (wrapping context p k) w = run h (k a) w' := by
  rw [wrapping, run_bind, hp]

theorem run_rollingBack {a : α} (context : String) (hp : run h p w = (.ok a, w')) :
    run h (rollingBack context p k) w = run h (k a) w' := by
  rw [rollingBack, run_bind, hp]

theorem run_ask (o : Op) : run (handle engine (smooth clock)) (ask o) w =
    ((serve engine (smooth clock) o w).1,
      { (serve engine (smooth clock) o w).2 with ticks := w.ticks + 1 }) := rfl

theorem run_execFrom {s : Schema} (hp : w.pending = some d) (i : Nat) {stmts : List String}
    (hs : effectFrom engine stmts d.schema = .ok s) :
    ∃ w', run (handle engine (smooth clock)) (execFrom m i stmts) w = (.ok (), w') ∧
      w'.committed = w.committed ∧ w'.pending = some { d with schema := s } := by
  induction stmts generalizing i w d with
  | nil =>
    cases hs
    exact ⟨w, rfl, rfl, hp⟩
  | cons stmt stmts ih =>
    rw [effectFrom, List.foldlM_cons] at hs
    cases hstmt : engine stmt d.schema with
    | error err =>
      rw [hstmt] at hs
      exact absurd hs nofun
    | ok s₁ =>
      rw [hstmt] at hs
      have hexec := @run_ask _ engine w clock (.exec stmt)
      rw [serve, hp] at hexec
      simp only [hstmt] at hexec
      obtain ⟨w', hrun, hcommitted, hpending⟩ := @ih
        { committed := w.committed, pending := some { d with schema := s₁ }, ticks := w.ticks + 1 }
        { d with schema := s₁ } rfl (i + 1) hs
      exact ⟨w', (run_rollingBack _ hexec).trans hrun, hcommitted, hpending⟩

theorem exists_insert {l : Ledger} {r : Row} (h : r.id ∉ l.rows.map Row.id) :
    ∃ l', l.insert r = some l' := by
  rw [Ledger.insert, dif_neg h]
  exact ⟨_, rfl⟩

/-- A migration whose statements succeed is applied, if its key is free. -/
theorem run_applyMigration {l : Ledger} {s : Schema} (hl : w.committed.ledger = some l)
    (hnew : m.id ∉ l.rows.map Row.id)
    (hs : effectFrom engine m.statements w.committed.schema = .ok s) (sum : String) :
    ∃ w' l', run (handle engine (smooth clock)) (applyMigration m sum) w = (.ok (), w') ∧
      w'.committed = ⟨s, some l'⟩ ∧ l'.rows.map Row.id = l.rows.map Row.id ++ [m.id] := by
  obtain ⟨w₁, hexec, hcommitted, hpending⟩ := @run_execFrom _ engine
    { committed := w.committed, pending := some w.committed, ticks := w.ticks + 2 } w.committed
    clock m s rfl 0 m.statements hs
  obtain ⟨l', hinsert⟩ := @exists_insert l ⟨m.id, m.name, sum, clock (w₁.ticks + 1),
    milliseconds (clock w₁.ticks - clock w.ticks)⟩ hnew
  have hrecord : run (handle engine (smooth clock))
      (ask (.insert m.id m.name sum (milliseconds (clock w₁.ticks - clock w.ticks))))
      { w₁ with ticks := w₁.ticks + 1 } = (.ok (),
        { committed := w₁.committed, pending := some ⟨s, some l'⟩, ticks := w₁.ticks + 2 }) := by
    rw [run_ask, serve, show ({ w₁ with ticks := w₁.ticks + 1 } : World Schema).pending = _ from
      hpending]
    simp only [hl, smooth, hinsert]
  refine ⟨{ committed := ⟨s, some l'⟩, pending := none, ticks := w₁.ticks + 3 }, l', ?_, rfl, ?_⟩
  · calc run (handle engine (smooth clock)) (applyMigration m sum) w
        = run (handle engine (smooth clock)) (wrapping "" (execFrom m 0 m.statements) fun _ =>
            (ask .now).bind fun t =>
            rollingBack ("migration " ++ m.id ++ ": recording failed: ")
              (ask (.insert m.id m.name sum (milliseconds (t - clock w.ticks)))) fun _ =>
            wrapping ("migration " ++ m.id ++ ": commit failed: ") (ask .commit) fun _ => done ())
            { committed := w.committed, pending := some w.committed, ticks := w.ticks + 2 } := rfl
      _ = run (handle engine (smooth clock))
            (rollingBack ("migration " ++ m.id ++ ": recording failed: ")
              (ask (.insert m.id m.name sum (milliseconds (clock w₁.ticks - clock w.ticks)))) fun _ =>
            wrapping ("migration " ++ m.id ++ ": commit failed: ") (ask .commit) fun _ => done ())
            { w₁ with ticks := w₁.ticks + 1 } := run_wrapping "" hexec
      _ = _ := run_rollingBack _ hrecord
  · rw [rows_insert hinsert, List.map_append]
    rfl

theorem run_applyFrom {applied : List (String × String)} {l : Ledger} {s : Schema}
    (hids : (migrations.map Migration.id).Nodup) (hl : w.committed.ledger = some l)
    (hnew : ∀ m ∈ migrations, lookup applied m.id = none → m.id ∉ l.rows.map Row.id)
    (hs : effects engine (plan sha256Hex (lookup applied) migrations) w.committed.schema = .ok s)
    (hdrift : ¬ Drifted sha256Hex (lookup applied) migrations) :
    (run (handle engine (smooth clock)) (applyFrom sha256Hex applied migrations) w).1 =
      .ok () := by
  induction migrations generalizing w l with
  | nil => rfl
  | cons m migrations ih =>
    obtain ⟨hfirst, hids⟩ := List.nodup_cons.mp hids
    have hdrift' : ¬ Drifted sha256Hex (lookup applied) migrations :=
      fun ⟨m', hm', hsum⟩ => hdrift ⟨m', List.mem_cons_of_mem m hm', hsum⟩
    have hnew' : ∀ m' ∈ migrations, lookup applied m'.id = none → m'.id ∉ l.rows.map Row.id :=
      fun m' hm' => hnew m' (List.mem_cons_of_mem m hm')
    rw [applyFrom]
    rw [plan] at hs
    cases hlookup : lookup applied m.id with
    | some sum =>
      have hsum : sum = checksumMigration sha256Hex m := by
        by_contra hne
        exact hdrift ⟨m, List.mem_cons_self, sum, hlookup, hne⟩
      simp only [hlookup, if_pos hsum] at hs
      simp only [hlookup, if_neg (not_not_intro hsum)]
      exact ih hids hl hnew' hs hdrift'
    | none =>
      simp only [hlookup] at hs ⊢
      rw [effects, List.foldlM_cons] at hs
      cases hm : effectFrom engine m.statements w.committed.schema with
      | error err =>
        rw [hm] at hs
        exact absurd hs nofun
      | ok s₁ =>
        rw [hm] at hs
        obtain ⟨w', l', hrun, hcommitted, hrows⟩ := @run_applyMigration _ engine w clock m l s₁ hl
          (hnew m List.mem_cons_self hlookup) hm (checksumMigration sha256Hex m)
        rw [run_wrapping "" hrun]
        refine ih hids (congrArg Contents.ledger hcommitted) (fun m' hm' hlookup' hmem => ?_)
          (hcommitted ▸ hs) hdrift'
        rw [hrows] at hmem
        obtain hmem | hmem := List.mem_append.mp hmem
        · exact hnew' m' hm' hlookup' hmem
        · exact hfirst (List.mem_singleton.mp hmem ▸ List.mem_map_of_mem hm')

/-- Where nothing fails, a run whose plan succeeds returns without an error. -/
theorem finished_smooth {s : Schema} (hids : (migrations.map Migration.id).Nodup)
    (hs : effects engine (plan sha256Hex (known d) migrations) d.schema = .ok s)
    (hdrift : ¬ Drifted sha256Hex (known d) migrations) (clock : Nat → Time) :
    (finished engine sha256Hex migrations (smooth clock) d).1 = .ok () := by
  let created : World Schema :=
    { committed := { d with ledger := some (d.ledger.getD Ledger.empty) }, pending := none, ticks := 2 }
  let applied := (d.ledger.getD Ledger.empty).rows.map fun r => (r.id, r.checksum)
  have hscan : (handle engine (smooth clock) .scan created).1 = .ok applied := rfl
  have hlookup : lookup applied = known d := by
    rw [scan_ok hscan]
    exact known_of_extends (@createTable_extends _ engine sha256Hex (smooth clock) (connect d))
  have hnew : ∀ m ∈ migrations, lookup applied m.id = none →
      m.id ∉ (d.ledger.getD Ledger.empty).rows.map Row.id := by
    intro m _ hnone hmem
    obtain ⟨r, hr, hid⟩ := List.mem_map.mp hmem
    rw [lookup, Option.map_eq_none_iff, List.find?_eq_none] at hnone
    exact hnone (r.id, r.checksum) (List.mem_map_of_mem hr) (decide_eq_true hid)
  rw [← hlookup] at hs hdrift
  exact @run_applyFrom _ engine sha256Hex migrations { created with ticks := 4 } clock applied _ s
    hids rfl hnew hs hdrift

end Smooth

section Histories

variable {attempts : List Attempt}

theorem progress_attempt (hids : (migrations.map Migration.id).Nodup)
    (hc : Progress engine sha256Hex d (plan sha256Hex (known d) migrations) c) (a : Attempt) :
    Progress engine sha256Hex d (plan sha256Hex (known d) migrations)
      (attempt engine sha256Hex migrations c a) := by
  obtain ⟨done, hdone, hextends⟩ := hc
  have hresumed := plan_resumed hids hdone
    (recorded_extends hids (fun m hm => plan_sublist.subset (hdone.subset hm)) hextends)
  obtain ⟨more, hmore, hextends'⟩ :=
    inv_cutOff (@safely_applyMigrations _ engine sha256Hex a.env migrations c) a.requests
  refine ⟨done ++ more, ?_, extends_trans hextends hextends'⟩
  rw [← hresumed]
  exact (List.prefix_append_right_inj done).mpr hmore

theorem progress_after (hids : (migrations.map Migration.id).Nodup) (attempts : List Attempt)
    (hc : Progress engine sha256Hex d (plan sha256Hex (known d) migrations) c) :
    Progress engine sha256Hex d (plan sha256Hex (known d) migrations)
      (after engine sha256Hex migrations attempts c) := by
  induction attempts generalizing c with
  | nil => exact hc
  | cons a attempts ih => exact ih (progress_attempt hids hc a)

/-- A run that succeeds after some progress has gone through the whole plan. -/
theorem finished_extends (hids : (migrations.map Migration.id).Nodup)
    (hc : Progress engine sha256Hex d (plan sha256Hex (known d) migrations) c)
    (h : (finished engine sha256Hex migrations env c).1 = .ok ()) :
    Extends engine sha256Hex d (plan sha256Hex (known d) migrations)
      (finished engine sha256Hex migrations env c).2.committed ∧
      ¬ Drifted sha256Hex (known d) migrations := by
  obtain ⟨done, hdone, hextends⟩ := hc
  have hrecorded :=
    recorded_extends hids (fun m hm => plan_sublist.subset (hdone.subset hm)) hextends
  obtain ⟨-, hpost⟩ := post_run (@safely_applyMigrations _ engine sha256Hex env migrations c)
  obtain ⟨hextends', hdrift⟩ := hpost () h
  rw [← plan_resumed hids hdone hrecorded]
  exact ⟨extends_trans hextends hextends', fun hd => hdrift ((drifted_resumed hrecorded).mpr hd)⟩

variable (engine sha256Hex migrations) in
/-- What has come of some contents: migrations that were not recorded have been applied and
recorded, in the order of the list. -/
structure Applied (d : Contents Schema) (done : List Migration) (c : Contents Schema) : Prop where
  order : done.Sublist migrations
  once : ∀ m ∈ done, known d m.id = none
  fully : Extends engine sha256Hex d done c

variable (engine sha256Hex migrations) in
/-- Where a run without failures leads to. -/
structure Resumed (d : Contents Schema) (env : Env) (c : Contents Schema) (clock : Nat → Time) :
    Prop where
  succeeds : (finished engine sha256Hex migrations (smooth clock) d).1 = .ok ()
  schema : (finished engine sha256Hex migrations env c).2.committed.schema =
    (finished engine sha256Hex migrations (smooth clock) d).2.committed.schema
  records : records (finished engine sha256Hex migrations env c).2.committed =
    records (finished engine sha256Hex migrations (smooth clock) d).2.committed

/-- Whatever interrupts the runs before, what is applied is applied fully, once and in order, a run
that succeeds in the end leads to where a single run does, and nothing at or after a migration
that is recorded with another checksum is applied. -/
theorem resumable (engine : Engine Schema) (sha256Hex : String → String)
    {migrations : List Migration} (hids : (migrations.map Migration.id).Nodup)
    (d : Contents Schema) (attempts : List Attempt) :
    ∃ done, Applied engine sha256Hex migrations d done
        (after engine sha256Hex migrations attempts d) ∧
      (∀ env clock, (finished engine sha256Hex migrations env
          (after engine sha256Hex migrations attempts d)).1 = .ok () →
        Resumed engine sha256Hex migrations d env (after engine sha256Hex migrations attempts d)
          clock) ∧
      ∀ before m later sum, migrations = before ++ m :: later → known d m.id = some sum →
        sum ≠ checksumMigration sha256Hex m → ∀ m' ∈ m :: later, m' ∉ done := by
  have hprogress := @progress_after _ engine sha256Hex migrations d d hids attempts
    ⟨[], List.nil_prefix, extends_refl d⟩
  obtain ⟨done, hdone, hextends⟩ := id hprogress
  refine ⟨done, ⟨hdone.sublist.trans plan_sublist,
    fun m hm => unknown_of_mem_plan (hdone.subset hm), hextends⟩, fun env clock hok => ?_, ?_⟩
  · obtain ⟨hfinal, hdrift⟩ := finished_extends hids hprogress hok
    have hsmooth := finished_smooth hids hfinal.schema hdrift clock
    have hsingle := (finished_extends hids ⟨[], List.nil_prefix, extends_refl d⟩ hsmooth).1
    refine ⟨hsmooth, ?_, hfinal.records.trans hsingle.records.symm⟩
    exact Except.ok.inj (hfinal.schema.symm.trans hsingle.schema)
  · rintro before m later sum rfl hknown hsum m' hm' hmem
    have hbefore : m' ∈ before := by
      have hplanned := hdone.subset hmem
      rw [plan_append hknown hsum] at hplanned
      exact plan_sublist.subset hplanned
    rw [List.map_append] at hids
    exact (List.nodup_append.mp hids).2.2 _ (List.mem_map_of_mem hbefore) _
      (List.mem_map_of_mem hm') rfl

end Histories

def twoSteps : List Migration :=
  [⟨"0001", "tables", ["CREATE TABLE a;", "CREATE TABLE b;"]⟩, ⟨"0002", "index", ["CREATE INDEX c;"]⟩]

/-- An engine that only notes its statements. -/
def noting : Engine (List String) := fun stmt s => .ok (s ++ [stmt])

/-- The first run is cut off between two statements, and the reply to the first commit of the second
run is lost. -/
def mishaps : List Attempt :=
  [⟨smooth fun _ => 0, 7⟩,
    ⟨⟨fun _ => 0, fun n => if n = 10 then .lost "driver: bad connection" else .served⟩, 100⟩]

theorem twoSteps_resumed : ∃ done, Applied noting id twoSteps ⟨[], none⟩ done
      (after noting id twoSteps mishaps ⟨[], none⟩) ∧
    Resumed noting id twoSteps ⟨[], none⟩ (smooth fun _ => 0)
      (after noting id twoSteps mishaps ⟨[], none⟩) fun _ => 0 := by
  have hids : (twoSteps.map Migration.id).Nodup := by decide
  obtain ⟨done, happlied, hresumed, -⟩ := resumable noting id hids ⟨[], none⟩ mishaps
  have hok : (finished noting id twoSteps (smooth fun _ => 0)
      (after noting id twoSteps mishaps ⟨[], none⟩)).1.isOk = true := by decide
  refine ⟨done, happlied, hresumed _ _ ?_⟩
  generalize (finished noting id twoSteps (smooth fun _ => 0)
    (after noting id twoSteps mishaps ⟨[], none⟩)).1 = r at hok ⊢
  cases r with
  | error err => exact absurd hok nofun
  | ok _ => rfl

end RivicQ.Properties.Resumption
