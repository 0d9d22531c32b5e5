import RivicQ.Authn.Replies
import RivicQ.Runs.Conduct

namespace RivicQ.Properties.Retries

open RivicQ.Lib.GoStrings RivicQ.Lib.Programs RivicQ.Lib.Disciplines RivicQ.Authn.Types
open RivicQ.Authn.Password RivicQ.Authn.Records RivicQ.Authn.Stores RivicQ.Authn.Environment
open RivicQ.Authn.Operations RivicQ.Authn.Worlds RivicQ.Authn.Replies RivicQ.Runs.Calls
open RivicQ.Runs.Conduct

/-- The store operations of the calls that redeem a token. -/
inductive Point where
  | getToken
  | getUserByID
  | markTokenUsed
  | updateUser
  | revokeSessionsForUser
  deriving DecidableEq

def pointOf : StoreOp → Option Point
  | .getToken _ => some .getToken
  | .getUserByID _ => some .getUserByID
  | .markTokenUsed _ => some .markTokenUsed
  | .updateUser _ => some .updateUser
  | .revokeSessionsForUser _ => some .revokeSessionsForUser
  | _ => none

def hits (p : Option Point) (o : StoreOp) : Bool := p.isSome && pointOf o == p

variable (env : Env)

/-- Serve one request. The store operation at `p` fails without effect, and no other does. -/
def failing (p : Option Point) (e : Err) : Handler Calls World
  | .store o, w =>
    if hits p o then (RivicQ.Authn.Postgres.failed e o, { w with ticks := w.ticks + 2 })
    else handle { env with statementFault := fun _ => none } (.store o) w
  | o, w => handle env o w

/-- The calls that redeem a token. -/
inductive Redemption where
  | resetPassword (newPassword : String)
  | verifyEmail

namespace Redemption

def purpose : Redemption → TokenPurpose
  | .resetPassword _ => .resetPassword
  | .verifyEmail => .verifyEmail

def call (raw : String) : Redemption → Prog Unit
  | .resetPassword newPassword => RivicQ.Authn.Operations.resetPassword env raw newPassword
  | .verifyEmail => RivicQ.Authn.Operations.verifyEmail env raw

/-- The operations after the token is marked. -/
def late : Redemption → Point → Bool
  | _, .updateUser => true
  | .resetPassword _, .revokeSessionsForUser => true
  | _, _ => false

/-- A new password is accepted for the user, and can be hashed at a tick. -/
def passes (u : User) (n : Nat) : Redemption → Prop
  | .resetPassword newPassword =>
    (validatePasswordFor env.cases newPassword u.email u.organisation).isOk = true ∧
      (env.bcryptGenerate n newPassword).isOk = true
  | .verifyEmail => True

/-- What the call is for, done for the user with an id. -/
def effected (w : World) (id : String) : Redemption → Prop
  | .resetPassword newPassword =>
    (∃ u, w.ledger.user id = some u ∧ ∃ n, env.bcryptGenerate n newPassword = .ok u.passwordHash) ∧
      ∀ key s, w.ledger.session key = some s → s.userID = id → s.revokedAt ≠ none
  | .verifyEmail => ∃ u, w.ledger.user id = some u ∧ u.emailVerified = true

end Redemption

variable (raw : String)

/-- The raw token can be redeemed at a time. -/
def Usable (now : Time) (w : World) : Prop :=
  ∃ tok, w.ledger.token (trimSpace (hashToken env raw)) = some tok ∧ tok.usedAt = none ∧
    now < tok.expiresAt

/-- Users, token and sessions are as before. -/
structure Unchanged (w w' : World) : Prop where
  user : ∀ id, w'.ledger.user id = w.ledger.user id
  token : ∀ now, Usable env raw now w' ↔ Usable env raw now w
  session : ∀ now id s, w'.ledger.session id = some s ∧ s.active now = true ↔
    w.ledger.session id = some s ∧ s.active now = true

/-- The token is used, and what it is for is done for its owner. -/
def Done (c : Redemption) (w : World) : Prop :=
  ∃ tok, w.ledger.token (trimSpace (hashToken env raw)) = some tok ∧ tok.usedAt ≠ none ∧
    c.effected env w tok.userID

/-- A call that fails changes nothing, and one that succeeds has done everything. -/
def AllOrNothing (c : Redemption) (p : Option Point) (e : Err) (w : World) : Prop :=
  match run (failing env p e) (c.call env raw) w with
  | (.error _, w') => Unchanged env raw w w'
  | (.ok _, w') => Done env raw c w'

/-- The token is good for a purpose when it is looked at, and stands for a user. -/
structure Loads (purpose : TokenPurpose) (w : World) (tok : Token) (u : User) : Prop where
  token : w.ledger.token (trimSpace (hashToken env raw)) = some tok
  purpose : tok.purpose = purpose
  unused : tok.usedAt = none
  unexpired : env.clock (w.ticks + 2) < tok.expiresAt
  owner : w.ledger.user tok.userID = some u

/-- The call gets as far as marking the token, if no operation fails. -/
def Accepted (c : Redemption) (w : World) : Prop :=
  ∃ tok u, Loads env raw c.purpose w tok u ∧ c.passes env u (w.ticks + 5)

variable {env} {raw} {p : Option Point} {e : Err} {w : World}

section Serving

theorem failing_hit {o : StoreOp} (h : hits p o = true) :
    failing env p e (.store o) w = (RivicQ.Authn.Postgres.failed e o, { w with ticks := w.ticks + 2 }) := by
  rw [failing, if_pos h]

theorem failing_miss {o : StoreOp} (h : hits p o = false) : failing env p e (.store o) w =
    ((w.store.exec env.cases (env.clock w.ticks) (env.clock (w.ticks + 1)) none o).1,
      { w with
        store := (w.store.exec env.cases (env.clock w.ticks) (env.clock (w.ticks + 1)) none o).2
        ticks := w.ticks + 2 }) := by
  rw [failing, if_neg (by rw [h]; exact Bool.false_ne_true)]
  rfl

theorem hits_of_eq {o : StoreOp} {q : Point} (ho : pointOf o = some q) (h : p = some q) :
    hits p o = true := by
  rw [hits, ho, h]
  exact Bool.and_eq_true_iff.mpr ⟨rfl, beq_self_eq_true _⟩

theorem hits_of_ne {o : StoreOp} {q : Point} (ho : pointOf o = some q) (h : p ≠ some q) :
    hits p o = false := by
  rw [hits, ho, beq_eq_false_iff_ne.mpr (Ne.symm h), Bool.and_false]

variable {α β : Type} {q : Prog α} {k : α → Prog β} {h : Handler Calls World}

theorem run_orReturn_error {err : Err} {w' : World} (hq : run h q w = (.error err, w')) :
    run h (orReturn q k) w = (.error err, w') := by
  rw [orReturn, run_bind, hq]
  rfl

theorem run_orReturn_ok {a : α} {w' : World} (hq : run h q w = (.ok a, w')) :
    run h (orReturn q k) w = run h (k a) w' := by
  rw [orReturn, run_bind, hq]

theorem run_orFail_error {err err' : Err} {w' : World} (hq : run h q w = (.error err, w')) :
    run h (orFail q err' k) w = (.error err', w') := by
  rw [orFail, run_bind, hq]
  rfl

theorem run_orFail_ok {err' : Err} {a : α} {w' : World} (hq : run h q w = (.ok a, w')) :
    run h (orFail q err' k) w = run h (k a) w' := by
  rw [orFail, run_bind, hq]

theorem run_store (o : StoreOp) : run h (store o) w = h (.store o) w := rfl

end Serving

/-- The worlds in which the store answers as it should. -/
structure Good (env : Env) (w : World) : Prop where
  store : w.store.WellFormed env.cases
  keyed : WellKeyed w.ledger
  distinct : DistinctEmails w.store

section Reaching

variable (env) in
/-- The conduct of the calls, which keep emails distinct without minding. -/
def distinctly : Discipline (handle env) :=
  (conduct env).extend (fun w => DistinctEmails w.store) (fun _ _ => True) (fun _ _ => True)
    (fun _ => trivial) (fun _ _ => trivial)
    (fun o w hy _ hd => by
      have ho : ∀ o', o ≠ .store o' := fun o' ho => by rw [ho] at hy; cases hy
      exact ⟨(@store_handle env o ho w).1 ▸ hd, trivial⟩)
    (fun o w _ hw hd _ _ => by
      by_cases ho : ∃ o', o = .store o'
      · obtain ⟨o', rfl⟩ := ho
        exact ⟨distinct_exec hw.store hd _ _ _ o', trivial⟩
      · exact ⟨(@store_handle env o (fun o' he => ho ⟨o', he⟩) w).1 ▸ hd, trivial⟩)

theorem uses_any {α : Type} (q : Prog α) : Uses (S := Calls) (fun _ => True) q := by
  induction q with
  | pure a => exact uses_pure a
  | request o k ih => exact uses_request.mpr ⟨trivial, ih⟩

theorem good_reachable {cfg : Config} (hf : Fresh env) (hw : Reachable env cfg w) : Good env w := by
  have hsound := reachable_sound hf cfg hw
  refine ⟨hsound.store, hsound.keyed, ?_⟩
  obtain ⟨st, hst, calls, sched, rfl⟩ := hw
  have hkept : Kept (distinctly env) (fun _ _ _ => True) (together env cfg calls (start st)) := by
    refine kept_of_conducts ⟨sound_start hst, distinct_empty hst⟩ fun q hq => ?_
    obtain ⟨c, -, rfl⟩ := List.mem_map.mp hq
    refine ⟨fun w hw => ?_⟩
    have hguarded := (conducts_call hf cfg c).guarded w hw.1
    have hinv : ∀ w, (distinctly env).Inv w → (conduct env).Inv w := fun _ h => h.1
    have hrely : ∀ {v w}, (distinctly env).Rely v w → (conduct env).Rely v w := fun h => h.1
    have hguard : ∀ o w, True → (distinctly env).Inv w → (conduct env).Guard w o →
        (distinctly env).Guard w o := fun _ _ _ _ hg => ⟨hg, trivial⟩
    exact guarded_transfer hinv hrely hguard hw (uses_any _) hguarded
  exact (kept_run (fun h => h) hkept sched).1.inv.2

end Reaching

section Writing

/-- A store operation that is not hit has its effect in a good world. -/
theorem write_miss (hw : Good env w) {o : StoreOp} (h : hits p o = false)
    (hG : Guard w.ledger o) :
    Good env (failing env p e (.store o) w).2 ∧ Step env.cases w.store.total w.ledger
      (failing env p e (.store o) w).2.ledger o (failing env p e (.store o) w).1 := by
  rw [failing_miss h]
  obtain ⟨hstore, hstep⟩ := Store.exec_step hw.store hw.keyed (env.clock w.ticks)
    (env.clock (w.ticks + 1)) none hG
  exact ⟨⟨hstore, (step_keeps hw.keyed hG hstep).1,
    distinct_exec hw.store hw.distinct _ _ none o⟩, hstep⟩

/-- The operation that fails leaves the store alone. -/
theorem run_hit {o : StoreOp} {q : Point} (ho : pointOf o = some q) (h : p = some q) :
    run (failing env p e) (store o) w =
      (RivicQ.Authn.Postgres.failed e o, { w with ticks := w.ticks + 2 }) :=
  failing_hit (hits_of_eq ho h)

/-- The token is marked, unless that fails. -/
theorem run_mark (p : Option Point) (e : Err) (hw : Good env w) {tok : Token} {key : String}
    (ht : w.ledger.token (trimSpace key) = some tok) :
    (p = some .markTokenUsed ∧ ∃ w', w'.store = w.store ∧
      run (failing env p e) (store (.markTokenUsed tok.hash)) w = (.error e, w')) ∨
    p ≠ some .markTokenUsed ∧ ∃ w' now, Good env w' ∧
      w'.ledger = putToken w.ledger { tok with usedAt := some now } ∧
      run (failing env p e) (store (.markTokenUsed tok.hash)) w = (.ok (), w') := by
  by_cases hp : p = some .markTokenUsed
  · exact .inl ⟨hp, { w with ticks := w.ticks + 2 }, rfl, run_hit rfl hp⟩
  have hmiss := @hits_of_ne p (.markTokenUsed tok.hash) _ rfl hp
  obtain ⟨hgood, hstep⟩ := @write_miss env p e w hw _ hmiss trivial
  have hkey : trimSpace tok.hash = trimSpace key := by rw [hw.keyed.token ht, trimSpace_trimSpace]
  have hreply : (failing env p e (.store (.markTokenUsed tok.hash)) w).1 = .ok () := by
    rw [failing_miss hmiss]
    exact exec_markTokenUsed _ _ (hkey ▸ ht)
  obtain ⟨hfail, -⟩ | ⟨-, t, now, htok, hledger⟩ := hstep
  · rw [hreply] at hfail
    exact absurd hfail nofun
  · rw [hkey, ht] at htok
    cases htok
    exact .inr ⟨hp, _, now, hgood, hledger, Prod.ext hreply rfl⟩

/-- A record with the email that is stored is written, unless that fails. -/
theorem run_update (p : Option Point) (e : Err) (hw : Good env w) {u old : User}
    (hold : w.ledger.user u.id = some old) (hemail : u.email = old.email) :
    (p = some .updateUser ∧ ∃ w', w'.store = w.store ∧
      run (failing env p e) (store (.updateUser u)) w = (.error e, w')) ∨
    p ≠ some .updateUser ∧ ∃ w' u', Good env w' ∧ Keeps env.cases u u' ∧
      w'.ledger = putUser w.ledger u' ∧
      run (failing env p e) (store (.updateUser u)) w = (.ok (), w') := by
  by_cases hp : p = some .updateUser
  · exact .inl ⟨hp, { w with ticks := w.ticks + 2 }, rfl, run_hit rfl hp⟩
  have hmiss := @hits_of_ne p (.updateUser u) _ rfl hp
  obtain ⟨hgood, hstep⟩ := @write_miss env p e w hw _ hmiss trivial
  have hreply : (failing env p e (.store (.updateUser u)) w).1 = .ok () := by
    rw [failing_miss hmiss]
    exact exec_updateUser _ _ hw.store hw.distinct hold hemail
  obtain ⟨hfail, -⟩ | ⟨-, old', u', -, hupdates, hledger⟩ := hstep
  · rw [hreply] at hfail
    exact absurd hfail nofun
  · exact .inr ⟨hp, _, u', hgood, hupdates.toKeeps, hledger, Prod.ext hreply rfl⟩

theorem run_revoke (p : Option Point) (e : Err) (hw : Good env w) (id : String) :
    (p = some .revokeSessionsForUser ∧ ∃ w', w'.store = w.store ∧
      run (failing env p e) (store (.revokeSessionsForUser id)) w = (.error e, w')) ∨
    p ≠ some .revokeSessionsForUser ∧ ∃ w' now, w'.ledger = revokeAll w.ledger now id ∧
      run (failing env p e) (store (.revokeSessionsForUser id)) w = (.ok (), w') := by
  by_cases hp : p = some .revokeSessionsForUser
  · exact .inl ⟨hp, { w with ticks := w.ticks + 2 }, rfl, run_hit rfl hp⟩
  have hmiss := @hits_of_ne p (.revokeSessionsForUser id) _ rfl hp
  obtain ⟨-, hstep⟩ := @write_miss env p e w hw _ hmiss trivial
  have hreply : (failing env p e (.store (.revokeSessionsForUser id)) w).1 = .ok () := by
    rw [failing_miss hmiss]
    exact exec_revokeSessionsForUser _ _ id
  obtain ⟨hfail, -⟩ | ⟨-, now, hledger⟩ := hstep
  · rw [hreply] at hfail
    exact absurd hfail nofun
  · exact .inr ⟨hp, _, now, hledger, Prod.ext hreply rfl⟩

end Writing

section Loading

variable {purpose : TokenPurpose}

/-- What is read of the store, where nothing fails. -/
theorem run_getToken (h : p ≠ some .getToken) (key : String) :
    run (failing env p e) (store (.getToken key)) w =
      (found .invalidToken (w.ledger.token (trimSpace key)), { w with ticks := w.ticks + 2 }) := by
  rw [run_store, failing_miss (hits_of_ne rfl h), exec_getToken]
  rfl

theorem run_getUserByID (h : p ≠ some .getUserByID) (id : String) :
    run (failing env p e) (store (.getUserByID id)) w =
      (found .userNotFound (w.ledger.user id), { w with ticks := w.ticks + 2 }) := by
  rw [run_store, failing_miss (hits_of_ne rfl h), exec_getUserByID]
  rfl

/-- The token is loaded as it is, unless a read fails. -/
theorem run_loadToken (p : Option Point) (e : Err) (raw : String) (purpose : TokenPurpose)
    (w : World) :
    (∃ tok u, Loads env raw purpose w tok u ∧ run (failing env p e) (loadToken env raw purpose) w =
      (.ok (tok, u), { w with ticks := w.ticks + 5 })) ∨
    ∃ err w', run (failing env p e) (loadToken env raw purpose) w = (.error err, w') ∧
      w'.store = w.store ∧
        (p = some .getToken ∨ p = some .getUserByID ∨ ∀ tok u, ¬ Loads env raw purpose w tok u) := by
  unfold loadToken
  by_cases hget : p = some .getToken
  · have hfail : run (failing env p e) (store (.getToken (hashToken env raw))) w =
        (.error e, { w with ticks := w.ticks + 2 }) :=
      failing_hit (@hits_of_eq p (.getToken (hashToken env raw)) _ rfl hget)
    exact .inr ⟨_, _, run_orFail_error hfail, rfl, .inl hget⟩
  have hread := @run_getToken env p e w hget (hashToken env raw)
  cases htok : w.ledger.token (trimSpace (hashToken env raw)) with
  | none =>
    rw [htok] at hread
    refine .inr ⟨_, _, run_orFail_error hread, rfl, .inr (.inr fun tok u h => ?_)⟩
    exact absurd (htok.symm.trans h.token) nofun
  | some tok =>
    have hsame : ∀ {tok' u}, Loads env raw purpose w tok' u → tok' = tok := fun h =>
      Option.some.inj (h.token.symm.trans htok)
    rw [htok] at hread
    rw [run_orFail_ok hread]
    by_cases hpurpose : tok.purpose = purpose
    · rw [if_neg (not_not_intro hpurpose)]
      by_cases hunused : tok.usedAt = none
      · rw [if_neg (not_not_intro hunused)]
        change (∃ tok' u, _ ∧ run _ (if ¬ env.clock (w.ticks + 2) < tok.expiresAt then _ else _) _ =
          _) ∨ ∃ err w', run _ (if ¬ env.clock (w.ticks + 2) < tok.expiresAt then _ else _) _ = _ ∧ _
        by_cases hunexpired : env.clock (w.ticks + 2) < tok.expiresAt
        · rw [if_neg (not_not_intro hunexpired)]
          by_cases howner : p = some .getUserByID
          · have hfail : run (failing env p e) (store (.getUserByID tok.userID))
                ({ w with ticks := w.ticks + 2 } : World).tick =
                (.error e, { w with ticks := w.ticks + 5 }) :=
              failing_hit (@hits_of_eq p (.getUserByID tok.userID) _ rfl howner)
            exact .inr ⟨_, _, run_orFail_error hfail, rfl, .inr (.inl howner)⟩
          have hread := @run_getUserByID env p e ({ w with ticks := w.ticks + 2 } : World).tick
            howner tok.userID
          cases hu : w.ledger.user tok.userID with
          | none =>
            rw [show ({ w with ticks := w.ticks + 2 } : World).tick.ledger = w.ledger from rfl,
              hu] at hread
            refine .inr ⟨_, _, run_orFail_error hread, rfl, .inr (.inr fun tok' u h => ?_)⟩
            have howner := h.owner
            rw [hsame h, hu] at howner
            exact absurd howner nofun
          | some u =>
            rw [show ({ w with ticks := w.ticks + 2 } : World).tick.ledger = w.ledger from rfl,
              hu] at hread
            exact .inl ⟨tok, u, ⟨htok, hpurpose, hunused, hunexpired, hu⟩, run_orFail_ok hread⟩
        · rw [if_pos hunexpired]
          refine .inr ⟨_, _, rfl, rfl, .inr (.inr fun tok' u h => ?_)⟩
          exact hunexpired (hsame h ▸ h.unexpired)
      · rw [if_pos hunused]
        refine .inr ⟨_, _, rfl, rfl, .inr (.inr fun tok' u h => ?_)⟩
        exact hunused (hsame h ▸ h.unused)
    · rw [if_pos hpurpose]
      refine .inr ⟨_, _, rfl, rfl, .inr (.inr fun tok' u h => ?_)⟩
      exact hpurpose (hsame h ▸ h.purpose)

end Loading

section Courses

variable (env raw p e w) in
/-- How a call can go: it ends with nothing done, or half done, or done. -/
inductive Course (c : Redemption) : Prop
  | undone (err : Err) (w' : World)
      (hrun : run (failing env p e) (c.call env raw) w = (.error err, w'))
      (hstore : w'.store = w.store) (hwhy : Accepted env raw c w → ∀ q ∈ p, c.late q = false)
  | half (err : Err) (w' : World) (tok : Token)
      (hrun : run (failing env p e) (c.call env raw) w = (.error err, w'))
      (htoken : w'.ledger.token (trimSpace (hashToken env raw)) = some tok)
      (hused : tok.usedAt ≠ none) (haccepted : Accepted env raw c w)
      (hlate : ∃ q ∈ p, c.late q = true)
  | done (w' : World) (hrun : run (failing env p e) (c.call env raw) w = (.ok (), w'))
      (hdone : Done env raw c w') (hlate : ∀ q ∈ p, c.late q = false)

theorem late_of_point {c : Redemption} {q : Point} (hp : p = some q) (hq : c.late q = false) :
    ∀ q ∈ p, c.late q = false := by
  rintro q' rfl
  rwa [Option.some.inj hp]

/-- Every part is late or is not hit. -/
theorem not_late {c : Redemption} (hupdate : p ≠ some .updateUser)
    (hrevoke : ∀ newPassword, c = .resetPassword newPassword → p ≠ some .revokeSessionsForUser) :
    ∀ q ∈ p, c.late q = false := by
  rintro q rfl
  cases c with
  | resetPassword newPassword =>
    cases q with
    | updateUser => exact absurd rfl hupdate
    | revokeSessionsForUser => exact absurd rfl (hrevoke newPassword rfl)
    | _ => rfl
  | verifyEmail =>
    cases q with
    | updateUser => exact absurd rfl hupdate
    | _ => rfl

theorem course_unloaded {c : Redemption} {err : Err} {w' : World}
    (hrun : run (failing env p e) (c.call env raw) w = (.error err, w'))
    (hstore : w'.store = w.store) (hwhy : p = some .getToken ∨ p = some .getUserByID ∨
      ∀ tok u, ¬ Loads env raw c.purpose w tok u) : Course env raw p e w c := by
  refine .undone err w' hrun hstore fun haccepted => ?_
  obtain ⟨tok, u, hloads, -⟩ := haccepted
  obtain hp | hp | hnone := hwhy
  · exact late_of_point hp (by cases c <;> rfl)
  · exact late_of_point hp (by cases c <;> rfl)
  · exact absurd hloads (hnone tok u)

section Marked

variable {purpose : TokenPurpose} {tok : Token} {u : User} {w₁ : World} {now : Time}

theorem ownerID (hw : Good env w) (h : Loads env raw purpose w tok u) : u.id = tok.userID :=
  hw.keyed.user h.owner

/-- The token is used once it is marked. -/
theorem token_marked (hw : Good env w) (h : Loads env raw purpose w tok u)
    (hledger : w₁.ledger = putToken w.ledger { tok with usedAt := some now }) :
    w₁.ledger.token (trimSpace (hashToken env raw)) = some { tok with usedAt := some now } := by
  rw [hledger, ← hw.keyed.token h.token]
  exact if_pos rfl

theorem owner_marked (hw : Good env w) (h : Loads env raw purpose w tok u)
    (hledger : w₁.ledger = putToken w.ledger { tok with usedAt := some now }) :
    w₁.ledger.user u.id = some u := by
  rw [hledger, ownerID hw h]
  exact h.owner

end Marked

theorem course_verify (hw : Good env w) : Course env raw p e w .verifyEmail := by
  obtain ⟨tok, u, hloads, hload⟩ | ⟨err, w', hload, hstore, hwhy⟩ :=
    run_loadToken p e raw .verifyEmail w
  · have haccepted : Accepted env raw .verifyEmail w := ⟨tok, u, hloads, trivial⟩
    have hgood : Good env { w with ticks := w.ticks + 5 } := ⟨hw.store, hw.keyed, hw.distinct⟩
    obtain ⟨hp, w₁, hstore, hmark⟩ | ⟨hp, w₁, now, hgood₁, hledger₁, hmark⟩ :=
      run_mark p e hgood hloads.token
    · refine .undone e w₁ ?_ hstore fun _ => late_of_point hp rfl
      exact run_orReturn_error ((run_orReturn_ok hload).trans (run_orReturn_error hmark))
    have hconsume : run (failing env p e) (consumeToken env raw .verifyEmail) w = (.ok u, w₁) :=
      (run_orReturn_ok hload).trans (run_orReturn_ok hmark)
    have htoken := token_marked hw hloads hledger₁
    have howner := owner_marked hw hloads hledger₁
    obtain ⟨hp, w₂, hstore, hupdate⟩ | ⟨hp, w₂, u', -, hkeeps, hledger₂, hupdate⟩ :=
      @run_update env w₁ p e hgood₁ { u with emailVerified := true } u howner rfl
    · refine .half e w₂ { tok with usedAt := some now } ((run_orReturn_ok hconsume).trans hupdate)
        ?_ (Option.some_ne_none now) haccepted ⟨.updateUser, hp, rfl⟩
      rw [show w₂.ledger = w₁.ledger from congrArg Store.ledger hstore]
      exact htoken
    · refine .done w₂ ((run_orReturn_ok hconsume).trans hupdate) ?_ (not_late hp nofun)
      rw [Done, hledger₂]
      have hid : u'.id = tok.userID := hkeeps.id.trans (show u.id = _ from ownerID hw hloads)
      refine ⟨_, htoken, Option.some_ne_none now, u', ?_, hkeeps.emailVerified⟩
      rw [hledger₂, ← hid]
      exact putUser_self _ u'
  · exact course_unloaded (run_orReturn_error (run_orReturn_error hload)) hstore hwhy

section Resets

variable {t : Token × User} {w' : World} {newPassword : String}

theorem run_reset_invalid {err : Err}
    (hload : run (failing env p e) (loadToken env raw .resetPassword) w = (.ok t, w'))
    (hvalid : validatePasswordFor env.cases newPassword t.2.email t.2.organisation = .error err) :
    run (failing env p e) (resetPassword env raw newPassword) w = (.error err, w') := by
  rw [resetPassword, run_orReturn_ok hload]
  simp only [hvalid]
  rfl

/-- What is left to do once the token is loaded and the password has passed. -/
theorem run_reset_valid
    (hload : run (failing env p e) (loadToken env raw .resetPassword) w = (.ok t, w'))
    (hvalid : validatePasswordFor env.cases newPassword t.2.email t.2.organisation = .ok ()) :
    run (failing env p e) (resetPassword env raw newPassword) w =
      run (failing env p e) (orReturn (hashPassword newPassword) fun hash =>
        orReturn (store (.markTokenUsed t.1.hash)) fun _ =>
        orReturn (store (.updateUser { t.2 with passwordHash := hash })) fun _ =>
        store (.revokeSessionsForUser t.2.id)) w' := by
  rw [resetPassword, run_orReturn_ok hload]
  simp only [hvalid]

end Resets

theorem course_reset (hw : Good env w) (newPassword : String) :
    Course env raw p e w (.resetPassword newPassword) := by
  obtain ⟨tok, u, hloads, hload⟩ | ⟨err, w', hload, hstore, hwhy⟩ :=
    run_loadToken p e raw .resetPassword w
  · have hsame : ∀ {tok' u'}, Loads env raw .resetPassword w tok' u' → u' = u := fun h => by
      have htok := Option.some.inj (h.token.symm.trans hloads.token)
      exact Option.some.inj (h.owner.symm.trans (htok ▸ hloads.owner))
    cases hvalid : validatePasswordFor env.cases newPassword u.email u.organisation with
    | error err =>
      refine .undone err _ (run_reset_invalid hload hvalid) rfl fun haccepted => ?_
      obtain ⟨tok', u', hloads', hpasses⟩ := haccepted
      rw [hsame hloads'] at hpasses
      exact absurd hpasses.1 (by rw [hvalid]; nofun)
    | ok _ =>
      have hreset := run_reset_valid hload hvalid
      cases hhash : env.bcryptGenerate (w.ticks + 5) newPassword with
      | error err =>
        have hrun : run (failing env p e) (hashPassword newPassword)
            { w with ticks := w.ticks + 5 } =
            (.error err, { w with ticks := w.ticks + 6 }) := Prod.ext hhash rfl
        refine .undone err _ (hreset.trans (run_orReturn_error hrun)) rfl fun haccepted => ?_
        obtain ⟨tok', u', -, hpasses⟩ := haccepted
        exact absurd hpasses.2 (by rw [hhash]; nofun)
      | ok hash =>
        have hrun : run (failing env p e) (hashPassword newPassword)
            { w with ticks := w.ticks + 5 } =
            (.ok hash, { w with ticks := w.ticks + 6 }) := Prod.ext hhash rfl
        have hreset := hreset.trans (run_orReturn_ok hrun)
        have haccepted : Accepted env raw (.resetPassword newPassword) w := by
          refine ⟨tok, u, hloads, ?_, ?_⟩
          · rw [hvalid]
            rfl
          · rw [hhash]
            rfl
        have hgood : Good env { w with ticks := w.ticks + 6 } :=
          ⟨hw.store, hw.keyed, hw.distinct⟩
        obtain ⟨hp, w₁, hstore, hmark⟩ | ⟨-, w₁, now, hgood₁, hledger₁, hmark⟩ :=
          run_mark p e hgood hloads.token
        · exact .undone e w₁ (hreset.trans (run_orReturn_error hmark)) hstore fun _ =>
            late_of_point hp rfl
        have hreset := hreset.trans (run_orReturn_ok hmark)
        have htoken := token_marked hw hloads hledger₁
        have howner := owner_marked hw hloads hledger₁
        obtain ⟨hp, w₂, hstore, hupdate⟩ | ⟨hp, w₂, u', hgood₂, hkeeps, hledger₂, hupdate⟩ :=
          @run_update env w₁ p e hgood₁ { u with passwordHash := hash } u howner rfl
        · refine .half e w₂ { tok with usedAt := some now }
            (hreset.trans (run_orReturn_error hupdate)) ?_ (Option.some_ne_none now) haccepted
            ⟨.updateUser, hp, rfl⟩
          rw [show w₂.ledger = w₁.ledger from congrArg Store.ledger hstore]
          exact htoken
        have hreset := hreset.trans (run_orReturn_ok hupdate)
        have htoken₂ : w₂.ledger.token (trimSpace (hashToken env raw)) =
            some { tok with usedAt := some now } := by
          rw [hledger₂]
          exact htoken
        obtain ⟨hp', w₃, hstore, hrevoke⟩ | ⟨hp', w₃, revoked, hledger₃, hrevoke⟩ :=
          run_revoke p e hgood₂ u.id
        · refine .half e w₃ { tok with usedAt := some now } (hreset.trans hrevoke) ?_
            (Option.some_ne_none now) haccepted ⟨.revokeSessionsForUser, hp', rfl⟩
          rw [show w₃.ledger = w₂.ledger from congrArg Store.ledger hstore]
          exact htoken₂
        · refine .done w₃ (hreset.trans hrevoke) ?_ (not_late hp fun _ _ => hp')
          have hid : u'.id = tok.userID :=
            hkeeps.id.trans (show u.id = _ from ownerID hw hloads)
          refine ⟨{ tok with usedAt := some now }, ?_, Option.some_ne_none now, ⟨u', ?_, ?_⟩, ?_⟩
          · rw [hledger₃]
            exact htoken₂
          · rw [hledger₃, hledger₂]
            exact hid ▸ putUser_self _ u'
          · exact ⟨w.ticks + 5, hhash.trans (congrArg Except.ok hkeeps.passwordHash.symm)⟩
          · intro key s hs howned
            rw [hledger₃] at hs
            obtain ⟨s₀, -, rfl⟩ := Option.map_eq_some_iff.mp hs
            rw [userID_of_identity (identity_revoke revoked u.id s₀)] at howned
            exact revoke_revokedAt revoked u.id s₀ (.inr (howned.trans (ownerID hw hloads).symm))
  · exact course_unloaded (run_orReturn_error hload) hstore hwhy

theorem course (hw : Good env w) (c : Redemption) : Course env raw p e w c := by
  cases c with
  | resetPassword newPassword => exact course_reset hw newPassword
  | verifyEmail => exact course_verify hw

end Courses

theorem unchanged_of_store {w' : World} (h : w'.store = w.store) : Unchanged env raw w w' := by
  have hledger : w'.ledger = w.ledger := congrArg Store.ledger h
  constructor
  · intro id
    rw [hledger]
  · intro now
    rw [Usable, Usable, hledger]
  · intro now id s
    rw [hledger]

/-- A used token cannot be tried again. -/
theorem not_unchanged_of_used {c : Redemption} {w' : World} {tok : Token}
    (htoken : w'.ledger.token (trimSpace (hashToken env raw)) = some tok) (hused : tok.usedAt ≠ none)
    (haccepted : Accepted env raw c w) : ¬ Unchanged env raw w w' := by
  intro h
  obtain ⟨tok₀, u, hloads, -⟩ := haccepted
  obtain ⟨tok', htok', hunused, -⟩ := (h.token (env.clock (w.ticks + 2))).mpr
    ⟨tok₀, hloads.token, hloads.unused, hloads.unexpired⟩
  exact hused (Option.some.inj (htoken.symm.trans htok') ▸ hunused)

/-- A call is all or nothing exactly if no operation after the marking of the token fails. -/
theorem all_or_nothing_iff {cfg : Config} (hf : Fresh env) (hw : Reachable env cfg w)
    (raw : String) (c : Redemption) (p : Option Point) (e : Err) :
    AllOrNothing env raw c p e w ↔ (Accepted env raw c w → ∀ q ∈ p, c.late q = false) := by
  rw [AllOrNothing]
  obtain ⟨err, w', hrun, hstore, hwhy⟩ | ⟨err, w', tok, hrun, htoken, hused, haccepted, hlate⟩ |
    ⟨w', hrun, hdone, hlate⟩ := @course env raw p e w (good_reachable hf hw) c
  · rw [hrun]
    exact iff_of_true (unchanged_of_store hstore) hwhy
  · rw [hrun]
    obtain ⟨q, hq, hlate⟩ := hlate
    refine iff_of_false (not_unchanged_of_used htoken hused haccepted) fun h => ?_
    exact absurd ((h haccepted q hq).symm.trans hlate) Bool.false_ne_true
  · rw [hrun]
    exact iff_of_true hdone fun _ => hlate

/-- A user has forgotten the password. -/
def forgotten : World :=
  demo [.register "Ada" "ada@example.org" "Tr0ub4dor-lake" "", .forgotPassword "ada@example.org"]

/-- While the token cannot be marked, nothing is done. -/
theorem unmarked_retried : AllOrNothing plain "aaaaaaa" (.resetPassword "N3w-passphrase")
    (some .markTokenUsed) (.text "driver: bad connection") forgotten := by
  refine (all_or_nothing_iff fresh_plain (reachable_demo _) _ _ _ _).mpr fun _ q hq => ?_
  rw [← Option.some.inj hq]
  rfl

/-- The sessions cannot be revoked: the call fails, with the token used up. -/
theorem reset_half_done : Reachable plain demoConfig forgotten ∧
    ¬ AllOrNothing plain "aaaaaaa" (.resetPassword "N3w-passphrase")
      (some .revokeSessionsForUser) (.text "driver: bad connection") forgotten := by
  refine ⟨reachable_demo _, ?_⟩
  have hbefore : ∃ tok ∈ forgotten.ledger.token (trimSpace (hashToken plain "aaaaaaa")),
      tok.usedAt = none ∧ 11 < tok.expiresAt := by decide +kernel
  have herror : (run (failing plain (some .revokeSessionsForUser) (.text "driver: bad connection"))
      (Redemption.call plain "aaaaaaa" (.resetPassword "N3w-passphrase")) forgotten).1.isOk =
        false := by decide +kernel
  have hafter : ∃ tok ∈ (run (failing plain (some .revokeSessionsForUser)
      (.text "driver: bad connection")) (Redemption.call plain "aaaaaaa"
        (.resetPassword "N3w-passphrase")) forgotten).2.ledger.token
          (trimSpace (hashToken plain "aaaaaaa")), tok.usedAt ≠ none := by decide +kernel
  rw [AllOrNothing]
  generalize run _ (Redemption.call plain "aaaaaaa" _) forgotten = r at herror hafter ⊢
  obtain ⟨r, w'⟩ := r
  cases r with
  | ok _ => exact absurd herror nofun
  | error err =>
    intro h
    obtain ⟨tok, htok, hunused, hunexpired⟩ := hbefore
    obtain ⟨tok', htok', hused⟩ := hafter
    obtain ⟨tok'', htok'', hunused', -⟩ := (h.token 11).mpr ⟨tok, htok, hunused, hunexpired⟩
    exact hused (Option.some.inj (htok'.symm.trans htok'') ▸ hunused')

end RivicQ.Properties.Retries
