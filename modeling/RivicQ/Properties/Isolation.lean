import RivicQ.Enterprise.Compliance
import RivicQ.Lib.Projections

namespace RivicQ.Properties.Isolation

open RivicQ.Lib.Tables RivicQ.Lib.Scanning RivicQ.Lib.Projections RivicQ.Enterprise.Compliance

variable (sv : Backend) (b : UUID)

/-- A control belongs to the tenant of its framework. -/
def Owned (db : Database) (c : Control) : Prop :=
  ∃ f ∈ db.frameworks, f.id = c.frameworkID ∧ f.tenantID = b

instance (db : Database) (c : Control) : Decidable (Owned b db c) :=
  inferInstanceAs (Decidable (∃ f ∈ db.frameworks, f.id = c.frameworkID ∧ f.tenantID = b))

/-- The rows of a tenant. -/
def ofTenant (db : Database) : List Framework × List Control × List TerraformAsset :=
  (db.frameworks.filter (·.tenantID = b), db.controls.filter fun c => Owned b db c,
    db.terraformAssets.filter (·.tenantID = b))

/-- The database without the rows of a tenant. -/
def without (db : Database) : Database where
  frameworks := db.frameworks.filter (·.tenantID ≠ b)
  controls := db.controls.filter fun c => ¬ Owned b db c
  terraformAssets := db.terraformAssets.filter (·.tenantID ≠ b)
  frameworks_nodup := db.frameworks_nodup.sublist (List.filter_sublist.map _)
  terraformAssets_nodup := db.terraformAssets_nodup.sublist (List.filter_sublist.map _)

/-- Whatever framework of the tenant a text names satisfies `P`. -/
def Naming (db : Database) (id : String) (P : Framework → Prop) : Prop :=
  ∀ frameworkID ∈ sv.parseUUID id, ∀ f ∈ rowWith Framework.id frameworkID db.frameworks,
    f.tenantID = b → P f

instance (db : Database) (id : String) (P : Framework → Prop) [DecidablePred P] :
    Decidable (Naming sv b db id P) :=
  inferInstanceAs (Decidable (∀ frameworkID ∈ sv.parseUUID id,
    ∀ f ∈ rowWith Framework.id frameworkID db.frameworks, f.tenantID = b → P f))

/-- No request for a framework or its dashboard names one of the tenant that can be read, and
an update that names one would be accepted and leave it as it is. -/
def Apart (db : Database) (c : Call) : Prop :=
  c.fault = false →
    match c.request with
    | .getFramework id =>
      Naming sv b db id fun f => scan frameworkDests (frameworkColumns sv f) = false
    | .getComplianceDashboard id =>
      Naming sv b db id fun f => scan dashboardDests (dashboardColumns f db) = false
    | .updateFramework id (.ok u) => IsInteger u.score →
      Naming sv b db id fun f => sv.admissible (u.apply c.now f) = true ∧ u.apply c.now f = f
    | _ => True

variable {sv b} {db : Database}

theorem rowWith_without (id : UUID) :
    rowWith Framework.id id (without b db).frameworks =
      (rowWith Framework.id id db.frameworks).filter (·.tenantID ≠ b) :=
  rowWith_filter db.frameworks_nodup _ id

theorem rowWith_hidden {id : UUID} {f : Framework}
    (hrow : rowWith Framework.id id db.frameworks = some f) (htenant : f.tenantID = b) :
    rowWith Framework.id id (without b db).frameworks = none := by
  rw [rowWith_without, hrow, Option.filter_some, if_neg (by simpa using htenant)]

theorem rowWith_shown {id : UUID} {f : Framework}
    (hrow : rowWith Framework.id id db.frameworks = some f) (htenant : f.tenantID ≠ b) :
    rowWith Framework.id id (without b db).frameworks = some f := by
  rw [rowWith_without, hrow, Option.filter_some, if_pos (by simpa using htenant)]

theorem rowWith_absent {id : UUID} (hrow : rowWith Framework.id id db.frameworks = none) :
    rowWith Framework.id id (without b db).frameworks = none := by
  rw [rowWith_without, hrow, Option.filter_none]

/-- The columns of `ListControls` are never all read. -/
theorem listControls_eq (id : String) (fault : Bool) :
    listControls sv id fault db = if (sv.parseUUID id).isNone then
      .error 400 "Invalid framework ID"
    else if fault then .error 500 "Failed to list controls" else .controls [] := by
  have hunread : ∀ c, scan controlDests (controlColumns sv c) = false := fun c =>
    scan_length (show 12 ≠ 13 by decide)
  cases hid : sv.parseUUID id <;> simp [listControls, hid, hunread]

theorem getTerraformResource_eq (id : String) (fault : Bool) :
    getTerraformResource sv id fault db = if (sv.parseUUID id).isNone then
      .error 400 "Invalid resource ID"
    else .error 404 "Resource not found" := by
  have hunread : ∀ t, scan terraformDests (terraformColumns sv t) = false := fun t =>
    scan_composite _ (by decide)
  cases hid : sv.parseUUID id with
  | none => simp [getTerraformResource, hid]
  | some resourceID =>
    cases hrow : rowWith TerraformAsset.id resourceID db.terraformAssets with
    | none => simp [getTerraformResource, hid, hrow]
    | some t => simp [getTerraformResource, hid, hrow, hunread]

theorem getFramework_blind (id : String) (fault : Bool) :
    getFramework sv id fault db = getFramework sv id fault (without b db) ↔
      (fault = false →
        Naming sv b db id fun f => scan frameworkDests (frameworkColumns sv f) = false) := by
  cases hid : sv.parseUUID id with
  | none => simp [getFramework, Naming, hid]
  | some frameworkID =>
    cases fault with
    | true => simp [getFramework, hid]
    | false =>
      cases hrow : rowWith Framework.id frameworkID db.frameworks with
      | none => simp [getFramework, Naming, hid, hrow, rowWith_absent hrow]
      | some f =>
        by_cases htenant : f.tenantID = b
        · simp [getFramework, Naming, hid, hrow, htenant, rowWith_hidden hrow htenant]
        · simp [getFramework, Naming, hid, hrow, htenant, rowWith_shown hrow htenant]

/-- The controls of a framework of another tenant stay. -/
theorem countControls_without {f : Framework} (hf : f ∈ db.frameworks) (htenant : f.tenantID ≠ b)
    (p : Control → Bool) : countControls f.id p (without b db) = countControls f.id p db := by
  simp only [countControls, without, List.countP_filter]
  refine List.countP_congr fun c _ => ?_
  have hother : c.frameworkID = f.id → ¬ Owned b db c := by
    rintro hid ⟨g, hg, hgid, hgtenant⟩
    have hsame : g = f := List.inj_on_of_nodup_map db.frameworks_nodup hg hf (hgid.trans hid)
    exact htenant (hsame ▸ hgtenant)
  simp only [Bool.and_eq_true, decide_eq_true_eq]
  exact ⟨fun h => h.1, fun h => ⟨h, hother h.1⟩⟩

theorem getComplianceDashboard_blind (id : String) (now : Time) (fault : Bool) :
    getComplianceDashboard sv id now fault db =
        getComplianceDashboard sv id now fault (without b db) ↔
      (fault = false →
        Naming sv b db id fun f => scan dashboardDests (dashboardColumns f db) = false) := by
  cases hid : sv.parseUUID id with
  | none => simp [getComplianceDashboard, Naming, hid]
  | some frameworkID =>
    cases fault with
    | true => simp [getComplianceDashboard, hid]
    | false =>
      cases hrow : rowWith Framework.id frameworkID db.frameworks with
      | none => simp [getComplianceDashboard, Naming, hid, hrow, rowWith_absent hrow]
      | some f =>
        by_cases htenant : f.tenantID = b
        · simp [getComplianceDashboard, Naming, hid, hrow, htenant, rowWith_hidden hrow htenant]
        · have hcount := countControls_without (rowWith_some hrow).1 htenant
          have hcolumns : dashboardColumns f (without b db) = dashboardColumns f db := by
            simp only [dashboardColumns, hcount]
          have hview : complianceDashboard f now (without b db) = complianceDashboard f now db := by
            simp only [complianceDashboard, hcount]
          simp [getComplianceDashboard, Naming, hid, hrow, htenant, rowWith_shown hrow htenant,
            hcolumns, hview]

variable (u : FrameworkUpdate) (now : Time) (id : UUID)

/-- An update does not change what a tenant owns. -/
theorem owned_updateFramework (c : Control) :
    Owned b (db.updateFramework u now id) c ↔ Owned b db c := by
  have hcond : ∀ f : Framework, (if f.id = id then u.apply now f else f).id = f.id ∧
      (if f.id = id then u.apply now f else f).tenantID = f.tenantID := fun f => by
    split <;> exact ⟨rfl, rfl⟩
  simp [Owned, Database.updateFramework, updateWhere, hcond]

theorem without_updateFramework :
    without b (db.updateFramework u now id) = (without b db).updateFramework u now id := by
  refine Database.ext ?_ ?_ rfl
  · exact filter_updateWhere (f := u.apply now) (fun f => rfl) db.frameworks
  · exact List.filter_congr fun c _ => by simp only [owned_updateFramework]

theorem ofTenant_updateFramework :
    ofTenant b (db.updateFramework u now id) = ofTenant b db ↔
      ∀ f ∈ rowWith Framework.id id db.frameworks, f.tenantID = b → u.apply now f = f := by
  have hcontrols : (db.updateFramework u now id).controls.filter
      (fun c => Owned b (db.updateFramework u now id) c) =
        db.controls.filter fun c => Owned b db c :=
    List.filter_congr fun c _ => by simp only [owned_updateFramework]
  rw [forall_rowWith db.frameworks_nodup]
  simp only [ofTenant, hcontrols, Prod.mk.injEq]
  simp only [Database.updateFramework, and_true]
  rw [filter_updateWhere_eq_self (f := u.apply now) fun _ => rfl]
  simp only [decide_eq_true_eq]

theorem updateFramework_blind (text : String) (body : Except String FrameworkUpdate)
    (fault : Bool) :
    ((updateFramework sv text body now fault db).1 =
        (updateFramework sv text body now fault (without b db)).1 ∧
      ofTenant b (updateFramework sv text body now fault db).2 = ofTenant b db) ↔
      (fault = false → ∀ u, body = .ok u → IsInteger u.score →
        Naming sv b db text fun f => sv.admissible (u.apply now f) = true ∧ u.apply now f = f) := by
  cases hid : sv.parseUUID text with
  | none => simp [updateFramework, Naming, hid]
  | some id =>
    cases body with
    | error e => simp [updateFramework, hid]
    | ok u =>
      cases fault with
      | true => simp [updateFramework, hid]
      | false =>
        by_cases hscore : IsInteger u.score
        · have hkeep := @ofTenant_updateFramework b db u now id
          cases hrow : rowWith Framework.id id db.frameworks with
          | none =>
            simp [updateFramework, accepted, Naming, hid, hscore, hrow, rowWith_absent hrow, hkeep]
          | some f =>
            by_cases htenant : f.tenantID = b
            · have hhidden := rowWith_hidden hrow htenant
              by_cases hok : sv.admissible (u.apply now f) = true
              · simp [updateFramework, accepted, Naming, hid, hscore, hrow, hhidden, hkeep, htenant,
                  hok]
              · simp [updateFramework, accepted, Naming, hid, hscore, hrow, hhidden, htenant, hok]
            · have hshown := rowWith_shown hrow htenant
              by_cases hok : sv.admissible (u.apply now f) = true
              · simp [updateFramework, accepted, Naming, hid, hscore, hrow, hshown, hkeep, htenant,
                  hok]
              · simp [updateFramework, accepted, Naming, hid, hscore, hrow, hshown, htenant, hok]
        · simp [updateFramework, accepted, hid, hscore]

theorem blind_iff_apart (c : Call) :
    Blind (without b) (ofTenant b) (step sv) db c ↔ Apart sv b db c := by
  obtain ⟨a, request, now, fault⟩ := c
  cases request with
  | getFramework id =>
    exact (and_iff_left rfl).trans (getFramework_blind id fault)
  | getComplianceDashboard id =>
    exact (and_iff_left rfl).trans (getComplianceDashboard_blind id now fault)
  | listControls id =>
    refine iff_of_true ⟨?_, rfl⟩ fun _ => trivial
    simp only [step, listControls_eq]
  | getTerraformResource id =>
    refine iff_of_true ⟨?_, rfl⟩ fun _ => trivial
    simp only [step, getTerraformResource_eq]
  | updateFramework id body =>
    refine (updateFramework_blind now id body fault).trans (imp_congr_right fun _ => ?_)
    cases body with
    | error e => exact iff_of_true (fun _ h => nomatch h) trivial
    | ok u =>
      constructor
      · exact fun h => h u rfl
      · rintro h _ ⟨⟩
        exact h

/-- Hiding the rows of a tenant and a step that does not depend on them commute. -/
theorem without_step {c : Call} (h : Blind (without b) (ofTenant b) (step sv) db c) :
    without b (step sv db c).2 = (step sv (without b db) c).2 := by
  obtain ⟨a, request, now, fault⟩ := c
  cases request with
  | getFramework id | getComplianceDashboard id | listControls id | getTerraformResource id => rfl
  | updateFramework id body =>
    have hreply := h.1
    simp only [step, updateFramework] at hreply ⊢
    cases hid : sv.parseUUID id with
    | none => rfl
    | some frameworkID =>
      cases body with
      | error e => rfl
      | ok u =>
        simp only [hid] at hreply ⊢
        -- a rejected update changes neither, an accepted one both
        cases hreal : fault || !accepted sv u now frameworkID db <;>
          cases hhidden : fault || !accepted sv u now frameworkID (without b db)
        · exact without_updateFramework u now frameworkID
        · simp [hreal, hhidden] at hreply
        · simp [hreal, hhidden] at hreply
        · rfl

/-- Whoever calls, the handlers leave the rows of a tenant alone, and answer as if it had none, in
exactly the runs whose requests are all apart from it. -/
theorem isolated (sv : Backend) (db : Database) (b : UUID) (calls : List Call) :
    ((trace (step sv) db calls).map Prod.fst = (trace (step sv) (without b db) calls).map Prod.fst ∧
      ∀ x ∈ trace (step sv) db calls, ofTenant b x.2 = ofTenant b db) ↔
      Along (step sv) (Apart sv b) db calls := by
  have hapart : Along (step sv) (Blind (without b) (ofTenant b) (step sv)) db calls ↔
      Along (step sv) (Apart sv b) db calls :=
    along_congr (I := fun _ => True) (fun _ _ _ => trivial) (fun _ c _ => blind_iff_apart c)
      trivial calls
  rw [← hapart]
  exact blind_iff (I := fun _ => True) (fun _ _ _ h => without_step h) (fun _ _ _ => trivial)
    trivial calls

def readableFramework : Framework where
  id := 11
  tenantID := 2
  framework := "iso27001"
  scope := some "all"
  controls := some "[]"
  status := some "active"
  score := some 70
  lastAuditAt := none
  nextAuditAt := none
  delveIntegration := some false
  kertosIntegration := some false
  updatedAt := 0

def otherTenant : Database where
  frameworks := [readableFramework]
  controls := []
  terraformAssets := []
  frameworks_nodup := by decide
  terraformAssets_nodup := by decide

/-- A server that keeps one framework. -/
def backend : Backend where
  parseUUID text := if text = "00000000-0000-0000-0000-00000000000b" then some 11 else none
  uuidText _ := "00000000-0000-0000-0000-00000000000b"
  unmarshals _ := true
  admissible _ := true

/-- A caller of another tenant names the framework, to read it and to give it a new score. -/
def naming : List Call :=
  [{ tenantID := 1, request := .getFramework "00000000-0000-0000-0000-00000000000b", now := 1 },
    { tenantID := 1, now := 2,
      request := .updateFramework "00000000-0000-0000-0000-00000000000b"
        (.ok { scope := "", status := "", score := 100 }) }]

theorem named_not_isolated : ¬ ∀ (sv : Backend) (db : Database) (a b : UUID) (calls : List Call),
    a ≠ b → (∀ c ∈ calls, c.tenantID = a) →
    (trace (step sv) db calls).map Prod.fst = (trace (step sv) (without b db) calls).map Prod.fst ∧
      ∀ x ∈ trace (step sv) db calls, ofTenant b x.2 = ofTenant b db := by
  intro h
  obtain ⟨hreplies, -⟩ := h backend otherTenant 1 2 naming (by decide) (by decide)
  exact absurd hreplies (by decide)

end RivicQ.Properties.Isolation
