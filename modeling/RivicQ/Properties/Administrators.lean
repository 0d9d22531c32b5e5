import RivicQ.Authn.Middleware
import RivicQ.Runs.Alone

namespace RivicQ.Properties.Listing

open RivicQ.Lib.GoStrings RivicQ.Lib.Tables RivicQ.Lib.Programs
open RivicQ.Authn.Types RivicQ.Authn.Records RivicQ.Authn.Stores
open RivicQ.Authn.Environment RivicQ.Authn.Operations RivicQ.Authn.Handlers
open RivicQ.Authn

/-- The users a store holds. -/
def users : Store → List User
  | .memory m => m.usersByID.values
  | .postgres db => db.users.map Postgres.scanUser

/-- The users of a tenant, where the empty id stands for every tenant. -/
def members (tenantID : String) (st : Store) : List User :=
  (users st).filter fun u => tenantID = "" || u.tenantID = tenantID

variable {cm : CaseMap} {t₀ t₁ : Time} {fault : Option Err} {st : Store} {tenantID : String}
  {us : List User} {env : Env} {w : World}

theorem mem_users {id : String} {u : User} (h : st.ledger.user id = some u) : u ∈ users st := by
  cases st with
  | memory m => exact (mem_values m.usersByID u).mpr ⟨id, h⟩
  | postgres db =>
    obtain ⟨r, hr, rfl⟩ := Option.map_eq_some_iff.mp h
    exact List.mem_map_of_mem (rowWith_some hr).1

theorem members_named (h : tenantID ≠ "") :
    members tenantID st = (users st).filter fun u => u.tenantID = tenantID := by
  simp [members, h]

theorem members_unnamed : members "" st = users st := by
  simp [members]

theorem lists_members (h : (st.exec cm t₀ t₁ fault (.listUsersByTenant tenantID)).1 = .ok us) :
    us.Perm (members tenantID st) := by
  cases st with
  | memory m =>
    cases h
    exact List.mergeSort_perm _ _
  | postgres db =>
    cases fault with
    | some e => cases h
    | none =>
      cases h
      have hsorted := (List.mergeSort_perm
        (db.users.filter fun r => tenantID = "" || r.tenantID = tenantID)
        fun r q => !(decide (q.email < r.email))).map Postgres.scanUser
      rw [members, users, List.filter_map]
      exact hsorted

theorem toUserResponse_publicUser (u : User) : toUserResponse (publicUser u) = toUserResponse u :=
  rfl

theorem run_listWorkspaceUsers : (run (handle env) (listWorkspaceUsers tenantID) w).1 =
    match (w.store.exec env.cases (env.clock w.ticks) (env.clock (w.ticks + 1))
      (env.statementFault w.ticks) (.listUsersByTenant tenantID)).1 with
    | .error _ => .error (.http 500 "Failed to list users")
    | .ok us => .ok (us.map toUserResponse, tenantID) := by
  simp only [listWorkspaceUsers, listUsersByTenant, orFail, orReturn, store,
    Program.request_bind, Program.pure_bind, run_request, handle]
  cases (w.store.exec env.cases (env.clock w.ticks) (env.clock (w.ticks + 1))
    (env.statementFault w.ticks) (.listUsersByTenant tenantID)).1 with
  | error e => rfl
  | ok us => simp [done, Function.comp_def, toUserResponse_publicUser]

/-- Both stores list the users of the tenant, or all users for the empty id, and so does the
handler for its caller's tenant. -/
theorem listing_scoped :
    (∀ us, (st.exec cm t₀ t₁ fault (.listUsersByTenant tenantID)).1 = .ok us →
      (tenantID ≠ "" → us.Perm ((users st).filter fun u => u.tenantID = tenantID)) ∧
      (tenantID = "" → us.Perm (users st))) ∧
    (∀ listed answered,
      (run (handle env) (listWorkspaceUsers tenantID) w).1 = .ok (listed, answered) →
      (tenantID ≠ "" → listed.Perm
        (((users w.store).filter fun u => u.tenantID = tenantID).map toUserResponse)) ∧
      (tenantID = "" → listed.Perm ((users w.store).map toUserResponse)) ∧
      answered = tenantID) := by
  constructor
  · intro us h
    have hlists := lists_members h
    exact ⟨fun hne => members_named hne ▸ hlists,
      fun he => by rwa [he, members_unnamed] at hlists⟩
  · intro listed answered h
    rw [run_listWorkspaceUsers] at h
    split at h
    · cases h
    · rename_i us hus
      have hlists := (lists_members hus).map toUserResponse
      cases h
      exact ⟨fun hne => members_named hne ▸ hlists,
        fun he => by rwa [he, members_unnamed] at hlists, rfl⟩

def tenanted (id tenantID : String) : User where
  id := id
  tenantID := tenantID
  email := id ++ "@rivicq.com"
  name := id
  role := .viewer
  organisation := ""
  passwordHash := ""
  emailVerified := true
  mfaEnabled := false
  mfaSecret := ""
  disabled := false
  createdAt := 1
  updatedAt := 1

/-- A caller without a tenant is shown the users of all. -/
theorem unnamed_lists_all : ¬ ∀ (cm : CaseMap) (t₀ t₁ : Time) (fault : Option Err) (st : Store)
    (tenantID : String) (us : List User),
    (st.exec cm t₀ t₁ fault (.listUsersByTenant tenantID)).1 = .ok us →
      us.Perm ((users st).filter fun u => u.tenantID = tenantID) := by
  intro h
  let m : Memory.MemStore := { Memory.empty with
    usersByID := AList.insert "mallory" (tenanted "mallory" "")
      (AList.insert "alice" (tenanted "alice" "acme") ∅) }
  have hreply : ((Store.memory m).exec asciiCase 0 0 none (.listUsersByTenant "")).1 = .ok _ := rfl
  have hall := (lists_members hreply).symm.trans (h _ _ _ _ _ _ _ hreply)
  exact absurd hall.length_eq (by decide)

end RivicQ.Properties.Listing

namespace RivicQ.Properties.Administrators

open RivicQ.Lib.GoStrings RivicQ.Lib.Programs RivicQ.Lib.Pools RivicQ.Lib.Disciplines
open RivicQ.Authn.Types RivicQ.Authn.Records RivicQ.Authn.Stores RivicQ.Authn.Environment
open RivicQ.Authn.Gate (Parser SignedToken ledgerParser)
open RivicQ.Auth.Permissions (permissionsForRole)
open RivicQ.Authn.Middleware
open RivicQ.Authn.Operations RivicQ.Authn.Handlers RivicQ.Authn.Worlds RivicQ.Authn.Rules
open RivicQ.Runs.Calls RivicQ.Runs.Conduct
open RivicQ.Properties

/-- A request to change a role, with the reading of the clock its token is checked by. -/
structure RoleRequest where
  now : Time
  request : Request
  id : String
  body : Option String

/-- The user is stored as an administrator of the tenant. -/
def Administers (tenantID : String) (v : Ledger) (id : String) : Prop :=
  ∃ u ∈ v.user id, u.tenantID = tenantID ∧ u.role = .admin

def Administered (tenantID : String) (v : Ledger) : Prop := ∃ id, Administers tenantID v id

instance (tenantID : String) (v : Ledger) (id : String) :
    Decidable (Administers tenantID v id) :=
  inferInstanceAs (Decidable (∃ u ∈ v.user id, u.tenantID = tenantID ∧ u.role = .admin))

/-- The record that a request writes. -/
def written : Op → Option User
  | .store (.updateUser u) => some u
  | _ => none

section Requests

variable (env : Env) (parseWithClaims : Parser) (cfg : Config)

def RoleRequest.program (r : RoleRequest) : Program Calls (Except Abort (Except Err UserResponse)) :=
  patchWorkspaceRoleRoute env.cases parseWithClaims cfg r.now r.request r.id r.body

/-- The user a request comes from, if its token passes as an administrator's. -/
def RoleRequest.caller (r : RoleRequest) : Option String :=
  match workspaceCaller env.cases parseWithClaims cfg r.now r.request with
  | .error _ => none
  | .ok b => some b.userID

/-- Requests that are served side by side. -/
def serving (rs : List RoleRequest) (w : World) :
    Pool Calls World (Except Abort (Except Err UserResponse)) :=
  ⟨w, rs.map (RoleRequest.program env parseWithClaims cfg)⟩

/-- Where an update takes the role from a stored administrator of the tenant, the caller it is
made for is still stored as one. -/
def Entitled (rs : List RoleRequest) (tenantID : String) (i : Nat) (o : Op) (w : World) : Prop :=
  ∀ u ∈ written o, Administers tenantID w.ledger u.id → u.role ≠ .admin →
    ∃ callerID ∈ (rs[i]?).bind (RoleRequest.caller env parseWithClaims cfg),
      Administers tenantID w.ledger callerID

instance (rs : List RoleRequest) (tenantID : String) (i : Nat) (o : Op) (w : World) :
    Decidable (Entitled env parseWithClaims cfg rs tenantID i o w) :=
  inferInstanceAs (Decidable (∀ u ∈ written o, Administers tenantID w.ledger u.id →
    u.role ≠ .admin → ∃ callerID ∈ (rs[i]?).bind (RoleRequest.caller env parseWithClaims cfg),
      Administers tenantID w.ledger callerID))

end Requests

/-- A write leaves the tenant of a stored user alone. -/
def KeepsTenant (v : Ledger) (o : StoreOp) : Prop :=
  ∀ u old, o = .updateUser u → v.user u.id = some old → u.tenantID = old.tenantID

/-- The stored users stay, each in its tenant. -/
def SameTenants (v w : Ledger) : Prop :=
  ∀ id u, v.user id = some u → ∃ u', w.user id = some u' ∧ u'.tenantID = u.tenantID

theorem sameTenants_refl (v : Ledger) : SameTenants v v := fun _ u hu => ⟨u, hu, rfl⟩

theorem sameTenants_putUser {v : Ledger} {u : User}
    (h : ∀ old, v.user u.id = some old → u.tenantID = old.tenantID) :
    SameTenants v (putUser v u) := by
  intro id old hold
  by_cases hid : id = u.id
  · subst hid
    exact ⟨u, putUser_self v u, h old hold⟩
  · exact ⟨old, (putUser_other hid).trans hold, rfl⟩

theorem step_sameTenants {cm : CaseMap} {total : Prop} {v v' : Ledger} {o : StoreOp} {r : o.Reply}
    (hG : Guard v o) (hK : KeepsTenant v o) (hs : Step cm total v v' o r) : SameTenants v v' := by
  obtain he | ⟨u, u', rfl, hk, he⟩ | ⟨u, old, u', rfl, hold, hk, he⟩ := step_user hs
  · exact fun id u hu => ⟨u, by rw [he]; exact hu, rfl⟩
  all_goals
    suffices hput : SameTenants v (putUser v u') by
      intro id u₀ hu₀
      obtain ⟨u₁, hu₁, ht⟩ := hput id u₀ hu₀
      exact ⟨u₁, by rw [he]; exact hu₁, ht⟩
  · refine sameTenants_putUser fun old hold => ?_
    rw [hk.id, hG.1] at hold
    cases hold
  · refine sameTenants_putUser fun old' hold' => ?_
    rw [hk.id, hold] at hold'
    cases hold'
    exact hk.sameTenant (hK u old rfl hold)

/-- Users are never moved to another tenant. -/
def tenancy (cm : CaseMap) : Concern cm where
  Inv := fun _ => True
  Rel := SameTenants
  Guard := KeepsTenant
  refl := sameTenants_refl
  trans := fun huv hvw id u hu => by
    obtain ⟨u', hu', ht⟩ := huv id u hu
    obtain ⟨u'', hu'', ht'⟩ := hvw id u' hu'
    exact ⟨u'', hu'', ht'.trans ht⟩
  step := fun _ hG hK hs => ⟨trivial, step_sameTenants hG hK hs⟩

variable {env : Env} {parseWithClaims : Parser} {cfg : Config} {w : World} {tenantID : String}

theorem tenancy_admits : Admits (minding (tenancy env.cases)) (fun k => k = .user) := by
  refine admits_minding fun {v o} ho _ _ u old hu => ?_
  subst hu
  exact absurd rfl (ho .user rfl)

/-- A request writes a user back only as the lookup found it, but for its role. -/
theorem conducts_patchWorkspaceRole (callerID callerTenant id : String) (body : Option String) :
    Conducts (minding (tenancy env.cases))
      (patchWorkspaceRole env.cases callerID callerTenant id body) := by
  unfold patchWorkspaceRole
  split
  · exact conducts_fail _
  extract_lets raw
  split
  · exact conducts_fail _
  refine ⟨fun w hw => (guarded_yield (by rfl)).mpr
    ⟨guard_plain tenancy_admits hw trivial, fun w' hr hw' => ?_⟩⟩
  have hfound := (handle_store hw.1 (.getUserByID id) trivial).2
  cases hreply : (handle env (.store (.getUserByID id)) w).1 with
  | error e => exact (conducts_fail _).guarded w' hw'
  | ok u =>
    have hu := hfound.2.1 u hreply
    have hid : u.id = id := hw.1.keyed.user hu
    rw [← hfound.1] at hu
    obtain ⟨u', hu', ht⟩ := hr.2 id u hu
    change Guarded _ _ (if u.tenantID ≠ callerTenant then _ else _) w'
    split
    · exact (conducts_fail _).guarded w' hw'
    extract_lets target
    split
    · exact (conducts_fail _).guarded w' hw'
    refine (guarded_yield (by rfl)).mpr ⟨⟨⟨trivial, trivial⟩, ?_⟩, fun w'' _ hw'' => ?_⟩
    · intro u₀ old he hold
      cases he
      change w'.ledger.user u.id = some old at hold
      rw [hid, hu'] at hold
      cases hold
      exact ht.symm
    · cases (handle env (Op.store (.updateUser target)) w').1 with
      | error e => exact (conducts_fail _).guarded w'' hw''
      | ok _ => exact (conducts_done _).guarded w'' hw''

/-- No request takes the administrator's role from its own caller. -/
def SparesCaller (caller : Option String) (o : Op) : Prop :=
  ∀ u, o = .store (.updateUser u) → u.role = .admin ∨ ∀ callerID ∈ caller, u.id ≠ callerID

theorem spares_other {caller : Option String} {o : Op} (ho : ∀ u, o ≠ .store (.updateUser u)) :
    SparesCaller caller o := fun u hu => absurd hu (ho u)

theorem uses_patchWorkspaceRole (callerID callerTenant id : String) (body : Option String) :
    Uses (S := Calls) (SparesCaller (some callerID))
      (patchWorkspaceRole env.cases callerID callerTenant id body) := by
  unfold patchWorkspaceRole
  split
  · exact uses_pure _
  extract_lets raw role
  clear_value role
  split
  · exact uses_pure _
  refine uses_request.mpr ⟨spares_other (by simp), fun reply => ?_⟩
  cases reply with
  | error e => exact uses_pure _
  | ok u =>
    change Uses _ (if u.tenantID ≠ callerTenant then _ else _)
    split
    · exact uses_pure _
    extract_lets target
    split
    · exact uses_pure _
    rename_i hspared
    refine uses_request.mpr ⟨fun u' he => ?_, fun reply => ?_⟩
    · cases he
      refine or_iff_not_imp_left.mpr fun hrole callerID' hcaller hid => hspared ⟨?_, hrole⟩
      cases hcaller
      exact hid
    · cases reply <;> exact uses_pure _

theorem conducts_program (r : RoleRequest) :
    Conducts (minding (tenancy env.cases)) (r.program env parseWithClaims cfg) := by
  unfold RoleRequest.program patchWorkspaceRoleRoute
  split
  · exact conducts_pure _
  · exact conducts_bind (conducts_patchWorkspaceRole _ _ _ _) fun _ => conducts_pure _

theorem uses_program (r : RoleRequest) :
    Uses (S := Calls) (SparesCaller (r.caller env parseWithClaims cfg))
      (r.program env parseWithClaims cfg) := by
  unfold RoleRequest.program RoleRequest.caller patchWorkspaceRoleRoute
  cases workspaceCaller env.cases parseWithClaims cfg r.now r.request with
  | error a => exact uses_pure _
  | ok b => exact uses_bind (uses_patchWorkspaceRole _ _ _ _) fun _ => uses_pure _

/-- A write keeps the tenant administered if it spares its caller and is entitled. -/
theorem administered_store {o : StoreOp} {caller : Option String}
    (hw : (minding (tenancy env.cases)).Inv w)
    (hG : (minding (tenancy env.cases)).Guard w (.store o))
    (hspared : SparesCaller caller (.store o))
    (hentitled : ∀ u, o = .updateUser u → Administers tenantID w.ledger u.id → u.role ≠ .admin →
      ∃ callerID ∈ caller, Administers tenantID w.ledger callerID)
    (hadmin : Administered tenantID w.ledger) :
    Administered tenantID (handle env (.store o) w).2.ledger := by
  have hs := (handle_store hw.1 o hG.1.1).2
  obtain ⟨id, u₀, hu₀, ht₀, hr₀⟩ := hadmin
  -- an administrator that is not written to stays one
  have hstays : ∀ {u' : User} {id : String}, id ≠ u'.id → Administers tenantID w.ledger id →
      Administered tenantID (putUser w.ledger u') := by
    rintro u' id hid ⟨u, hu, ht⟩
    exact ⟨id, u, (putUser_other hid).trans hu, ht⟩
  obtain he | ⟨u, u', rfl, hk, he⟩ | ⟨u, old, u', rfl, hold, hk, he⟩ := step_user hs
  · exact ⟨id, u₀, by rw [he]; exact hu₀, ht₀, hr₀⟩
  all_goals
    suffices hput : Administered tenantID (putUser w.ledger u') by
      obtain ⟨id, u, hu, ht⟩ := hput
      exact ⟨id, u, by rw [he]; exact hu, ht⟩
  · refine hstays ?_ ⟨u₀, hu₀, ht₀, hr₀⟩
    rw [hk.id]
    rintro rfl
    rw [Option.mem_def, hG.1.1.1] at hu₀
    cases hu₀
  · by_cases hid : id = u'.id
    · rw [hk.id] at hid
      subst hid
      obtain rfl := Option.some.inj (hold.symm.trans hu₀)
      by_cases hrole : u.role = .admin
      · refine ⟨u'.id, u', putUser_self w.ledger u', ?_, hk.role.trans hrole⟩
        exact (hk.sameTenant (hG.2 u old rfl hold)).trans ht₀
      · obtain ⟨callerID, hcaller, hcalls⟩ :=
          hentitled u rfl ⟨old, hu₀, ht₀, hr₀⟩ hrole
        refine hstays ?_ hcalls
        rw [hk.id]
        exact ((hspared u rfl).resolve_left hrole callerID hcaller).symm
    · exact hstays hid ⟨u₀, hu₀, ht₀, hr₀⟩

variable {rs : List RoleRequest} {α : Type}

/-- What holds of a pool of requests as it goes on. -/
structure Attended (env : Env) (parseWithClaims : Parser) (cfg : Config) (rs : List RoleRequest)
    (tenantID : String) (c : Pool Calls World α) : Prop where
  kept : Kept (minding (tenancy env.cases)) (fun _ _ _ => True) c
  spares : ∀ (i : Nat) (p : Program Calls α), c.threads[i]? = some p →
    Uses (S := Calls) (SparesCaller ((rs[i]?).bind (RoleRequest.caller env parseWithClaims cfg))) p
  admin : Administered tenantID c.world.ledger

theorem attended_step {c : Pool Calls World α}
    (hc : Attended env parseWithClaims cfg rs tenantID c) (i : Nat)
    (hi : ∀ e ∈ c.event (handle env) i, Entitled env parseWithClaims cfg rs tenantID i e.1 e.2) :
    Attended env parseWithClaims cfg rs tenantID (c.step (handle env) i) := by
  refine ⟨(kept_step (fun hg => hg) hc.kept i).1, fun j q hq => ?_, ?_⟩
  · obtain ⟨_, hq⟩ | ⟨p, rfl, hp, rfl⟩ := Pool.threads_step (handle env) c i j q hq
    · exact hc.spares j q hq
    · exact uses_slice c.world (hc.spares j p hp)
  · cases hp : c.threads[i]? with
    | none =>
      rw [Pool.step_of_none (handle env) hp]
      exact hc.admin
    | some p =>
      rw [Pool.step_of_some (handle env) hp]
      have hG := hc.kept.settled i p hp _ ((minding _).rely_refl _) hc.kept.inv
      refine slice_keeps (I := fun w : World => Administered tenantID w.ledger) (fun o w hy hadmin => ?_)
        (fun o w he hadmin => ?_) hc.admin
      · have hstore : ∀ o', o ≠ .store o' := fun o' ho => by rw [ho] at hy; cases hy
        have hl : (handle env o w).2.ledger = w.ledger :=
          congrArg Store.ledger (@store_handle env o hstore w).1
        rw [hl]
        exact hadmin
      · obtain ⟨_, hw, _, hGuard, _⟩ := performed_guarded hc.kept.inv hG he
        have hevent : (o, w) ∈ c.event (handle env) i :=
          (Pool.event_of_some (handle env) hp).trans he
        have hentitled := hi (o, w) hevent
        by_cases ho : ∃ o', o = .store o'
        · obtain ⟨o', rfl⟩ := ho
          refine administered_store hw hGuard (uses_performed (hc.spares i p hp) he) ?_ hadmin
          rintro u rfl
          exact hentitled u rfl
        · have hl : (handle env o w).2.ledger = w.ledger :=
            congrArg Store.ledger (@store_handle env o (fun o' h => ho ⟨o', h⟩) w).1
          rw [hl]
          exact hadmin

theorem attended_run (sched : List Nat) {c : Pool Calls World α}
    (hc : Attended env parseWithClaims cfg rs tenantID c)
    (hsched : c.Meets (handle env) (Entitled env parseWithClaims cfg rs tenantID) sched) :
    Attended env parseWithClaims cfg rs tenantID (c.run (handle env) sched) := by
  induction sched generalizing c with
  | nil => exact hc
  | cons i sched ih => exact ih (attended_step hc i hsched.1) hsched.2

theorem attended_serving (hw : Sound env w) (hadmin : Administered tenantID w.ledger) :
    Attended env parseWithClaims cfg rs tenantID (serving env parseWithClaims cfg rs w) := by
  refine ⟨kept_of_conducts ⟨hw, trivial⟩ fun p hp => ?_, fun i p hp => ?_, hadmin⟩
  · obtain ⟨r, _, rfl⟩ := List.mem_map.mp hp
    exact conducts_program r
  · obtain ⟨r, hr, rfl⟩ := Option.map_eq_some_iff.mp ((List.getElem?_map ..).symm.trans hp)
    rw [hr, Option.bind_some]
    exact uses_program r

/-- In every interleaving of role requests a tenant that has an administrator keeps one, if
whoever takes the role from an administrator is still one at that moment. -/
theorem administrator_remains (hf : Fresh env) (hw : Reachable env cfg w)
    (hadmin : Administered tenantID w.ledger) (rs : List RoleRequest) (sched : List Nat)
    (hsched : (serving env parseWithClaims cfg rs w).Meets (handle env)
      (Entitled env parseWithClaims cfg rs tenantID) sched) :
    Administered tenantID
      ((serving env parseWithClaims cfg rs w).run (handle env) sched).world.ledger :=
  (attended_run sched (attended_serving (reachable_sound hf cfg hw) hadmin) hsched).admin

/-- A token of a session that an administrator of the demo tenant began at the first tick. -/
def adminToken (raw userID email : String) : SignedToken where
  raw := raw
  method := .hmac "HS256"
  secret := demoConfig.secret
  claims := {
    userID := userID
    tenantID := demoConfig.defaultTenantID
    email := email
    role := "admin"
    edition := "enterprise"
    permissions := permissionsForRole asciiCase "admin"
    id := userID
    subject := userID
    expiresAt := 1 + demoConfig.accessTTL
    issuedAt := 1
    notBefore := 1
    issuer := demoConfig.issuer
    audience := [demoConfig.audience] }

/-- The two administrators of the demo tenant. -/
def rootToken : SignedToken := adminToken "root.jwt" "0000" "root@rivicq.com"

def deputyToken : SignedToken := adminToken "deputy.jwt" "0000000000" "admin@rivicq.com"

def demotion (token : SignedToken) (id : String) : RoleRequest where
  now := 2
  request := { authorization := "Bearer " ++ token.raw, accessToken := "", requestID := "req-1" }
  id := id
  body := some "viewer"

/-- Each of them takes the role from the other. -/
def demotions : List RoleRequest := [demotion rootToken "0000000000", demotion deputyToken "0000"]

def parser : Parser := ledgerParser [rootToken, deputyToken]

def seeded : World := demo [.seedBootstrap]

/-- The first of the two requests leaves the tenant with its other administrator. -/
theorem administrator_remains_first : Administered "tenant-1"
    ((serving plain parser demoConfig demotions seeded).run (handle plain) [0, 0]).world.ledger :=
  administrator_remains fresh_plain (reachable_demo [.seedBootstrap])
    (by exact ⟨"0000", by decide +kernel⟩) demotions [0, 0] (by decide +kernel)

/-- The second finds its caller demoted and is served all the same. -/
theorem deputy_leaves_none : ¬ ∀ (parseWithClaims : Parser) (w : World) (tenantID : String)
    (rs : List RoleRequest) (sched : List Nat), Reachable plain demoConfig w →
    Administered tenantID w.ledger → Administered tenantID
      ((serving plain parseWithClaims demoConfig rs w).run (handle plain) sched).world.ledger := by
  intro h
  obtain ⟨id, u, hu, _, hrole⟩ := h parser seeded "tenant-1" demotions [0, 0, 1, 1]
    (reachable_demo [.seedBootstrap]) ⟨"0000", by decide +kernel⟩
  have hnone : ∀ u ∈ Listing.users ((serving plain parser demoConfig demotions seeded).run
      (handle plain) [0, 0, 1, 1]).world.store, u.role ≠ .admin := by decide +kernel
  exact hnone u (Listing.mem_users hu) hrole

end RivicQ.Properties.Administrators
