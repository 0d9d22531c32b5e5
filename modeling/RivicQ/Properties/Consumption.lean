import RivicQ.Runs.Conduct

namespace RivicQ.Properties.Consumption

open RivicQ.Lib.GoStrings RivicQ.Lib.Programs RivicQ.Lib.Pools RivicQ.Lib.Disciplines
open RivicQ.Lib.SingleUse RivicQ.Authn.Types RivicQ.Authn.Records RivicQ.Authn.Environment
open RivicQ.Authn.Operations RivicQ.Authn.Worlds RivicQ.Authn.Rules
open RivicQ.Runs.Calls RivicQ.Runs.Conduct

/-- A token is marked used. -/
def Consumes : (o : Op) → o.Reply → Prop
  | .store (.markTokenUsed _), r => r = .ok ()
  | _, _ => False

def marked : Op → Option String
  | .store (.markTokenUsed hash) => some hash
  | _ => none

/-- A token that is marked used is not used yet. -/
def FindsUnused (o : Op) (w : World) : Prop :=
  ∀ hash ∈ marked o, ∀ t ∈ w.ledger.token (trimSpace hash), t.usedAt = none

instance (o : Op) (w : World) : Decidable (FindsUnused o w) :=
  inferInstanceAs (Decidable (∀ hash ∈ marked o, ∀ t ∈ w.ledger.token (trimSpace hash), t.usedAt = none))

variable (env : Env) (cfg : Config)

/-- The call is a consumer and presents a token with this digest. -/
def Presents (hash : String) : Call → Prop
  | .verifyEmail rawToken => hashToken env rawToken = hash
  | .resetPassword rawToken _ => hashToken env rawToken = hash
  | .verifyMFA mfaSession _ _ _ => hashToken env mfaSession = hash
  | _ => False

def Used (hash : String) (w : World) : Prop :=
  ∃ t, w.ledger.token (trimSpace hash) = some t ∧ t.usedAt ≠ none

/-- Only the one token is marked used. -/
def consuming (hash : String) : Discipline (handle env) :=
  (conduct env).asking fun _ o => ∀ h ∈ marked o, trimSpace h = trimSpace hash

variable {env} {hash : String}

theorem consuming_admits : Admits (consuming env hash) (fun k => k = .token) := by
  refine admits_asking fun {w o} ho _ _ h hh => ?_
  unfold marked at hh
  split at hh
  · exact absurd rfl (ho .token rfl)
  · cases hh

theorem used_onward {v w : World} (h : Onward v w) (hu : Used hash v) : Used hash w := by
  obtain ⟨t, ht, hused⟩ := hu
  obtain ⟨t', ht', _, hused'⟩ := h.ledger.token ht
  exact ⟨t', ht', hused' hused⟩

theorem used_of_consumes {o : Op} {w : World} (hw : Sound env w)
    (hG : (consuming env hash).Guard w o) (hc : Consumes o (handle env o w).1) :
    Used hash (handle env o w).2 := by
  unfold Consumes at hc
  split at hc
  · rename_i h
    have hsame : trimSpace h = trimSpace hash := hG.2 h rfl
    obtain ⟨hr, _⟩ | ⟨_, t, now, ht, he⟩ := (handle_store hw (.markTokenUsed h) trivial).2
    · rw [hc] at hr
      cases hr
    · refine ⟨{ t with usedAt := some now }, ?_, by simp⟩
      rw [he, ← hsame, ← hw.keyed.token ht]
      exact if_pos rfl
  · exact hc.elim

theorem until_markTokenUsed (h : String) :
    Until Consumes Failed (store (.markTokenUsed h) : Prog Unit) := by
  refine until_request.mpr fun r => ?_
  cases r with
  | error e => exact Or.inr (until_fail e)
  | ok _ => exact Or.inl rfl

theorem until_verifyEmail (rawToken : String) :
    Until Consumes Failed (verifyEmail env rawToken) := by
  refine until_orReturn_left (until_orReturn fun t => ?_)
  exact until_orReturn_left (until_markTokenUsed _)

theorem until_resetPassword (rawToken newPassword : String) :
    Until Consumes Failed (resetPassword env rawToken newPassword) := by
  refine until_orReturn fun t => ?_
  simp only
  split
  · exact until_fail _
  · exact until_orReturn fun hash => until_orReturn_left (until_markTokenUsed _)

theorem until_verifyMFA (mfaSession code userAgent ip : String) :
    Until Consumes Failed (verifyMFA env cfg mfaSession code userAgent ip) := by
  refine until_orFail fun t => until_totpValid fun valid => ?_
  split
  · exact until_fail _
  · exact until_orFail_left (until_markTokenUsed _)

theorem until_program {c : Call} (hc : Presents env hash c) :
    Until Consumes Failed (program env cfg c) := by
  cases c with
  | verifyEmail => exact until_orReturn_left (until_verifyEmail _)
  | resetPassword => exact until_orReturn_left (until_resetPassword _ _)
  | verifyMFA => exact until_orReturn_left (until_verifyMFA cfg _ _ _ _)
  | _ => exact hc.elim

section

variable (hf : Fresh env)
include hf

omit hf in
theorem marksOwn_consuming {raw : String} (hr : hashToken env raw = hash) :
    MarksOwn (consuming env hash) raw := by
  refine fun w h hh _ => ⟨⟨trivial, trivial⟩, fun h' hm => ?_⟩
  cases hm
  rw [hh, hr, trimSpace_trimSpace]

theorem conducts_consumer {c : Call} (hc : Presents env hash c) :
    Conducts (consuming env hash) (program env cfg c) := by
  cases c with
  | verifyEmail rawToken =>
    exact conducts_answering
      (conducts_verifyEmail consuming_admits (by simp) (marksOwn_consuming hc))
  | resetPassword rawToken =>
    exact conducts_answering
      (conducts_resetPassword consuming_admits (by simp) (marksOwn_consuming hc) _)
  | verifyMFA mfaSession =>
    exact conducts_answering
      (conducts_verifyMFA consuming_admits hf cfg (marksOwn_consuming hc) _ _ _)
  | _ => exact hc.elim

theorem kept_consumers {w : World} (hw : Sound env w) {calls : List Call}
    (hcalls : ∀ c ∈ calls, Presents env hash c) :
    Kept (consuming env hash) (fun _ _ _ => True) (together env cfg calls w) := by
  refine kept_of_conducts ⟨hw, trivial⟩ fun p hp => ?_
  obtain ⟨c, hc, rfl⟩ := List.mem_map.mp hp
  exact conducts_consumer cfg hf (hcalls c hc)

/-- A token is consumed at most once in every interleaving in which no consumer
marks a token that is used already. -/
theorem token_single_use {w : World} (hw : Reachable env cfg w) {calls : List Call}
    (hcalls : ∀ c ∈ calls, Presents env hash c) (sched : List Nat)
    (hrun : (together env cfg calls w).Along (handle env) (fun _ => FindsUnused) sched)
    {i j : Nat} {a b : Answer}
    (hi : ((together env cfg calls w).run (handle env) sched).returned i = some (.ok a))
    (hj : ((together env cfg calls w).run (handle env) sched).returned j = some (.ok b)) :
    i = j := by
  have hkept := kept_consumers cfg hf (reachable_sound hf cfg hw) hcalls
  refine at_most_once (D := consuming env hash) (fun h => h) (fun h => used_onward h.1) ?_
    (fun o v hv hG hfire => used_of_consumes hv.1 hG hfire) sched hkept ?_ ?_ hi (not_failed_ok a) hj
    (not_failed_ok b)
  · intro o r hfire
    unfold Consumes at hfire
    split at hfire
    · rfl
    · exact hfire.elim
  · intro i q hq
    obtain ⟨c, hc, rfl⟩ := List.mem_map.mp (List.mem_of_getElem? hq)
    exact until_program cfg (hcalls c hc)
  · refine along_of_kept (fun h => h) (fun c o v hv hG hP hfire hused => ?_) sched hkept hrun
    unfold Consumes at hfire
    split at hfire
    · rename_i h
      obtain ⟨t, ht, hused⟩ := hused
      exact hused (hP h rfl t (by rw [hG.2 h rfl]; exact ht))
    · exact hfire.elim

end

/-- A registered user has asked for a reset token. -/
def forgotten : List Call :=
  [.register "Ada" "ada@example.org" "Tr0ub4dor-lake" "", .forgotPassword "ada@example.org"]

/-- Two resets that present it, with different passwords. -/
def twoResetCalls : List Call :=
  [.resetPassword "aaaaaaa" "N3w-passphrase", .resetPassword "aaaaaaa" "0ther-passphrase"]

def twoResets (sched : List Nat) : Pool Calls World (Except Err Answer) :=
  (together plain demoConfig twoResetCalls (demo forgotten)).run (handle plain) sched

theorem presents_twoResetCalls :
    ∀ c ∈ twoResetCalls, Presents plain (hashToken plain "aaaaaaa") c := by
  intro c hc
  simp only [twoResetCalls, List.mem_cons, List.not_mem_nil, or_false] at hc
  obtain rfl | rfl := hc <;> rfl

/-- One after the other: the second is refused. -/
theorem token_single_use_in_turn :
    (∃ a, (twoResets [0, 0, 0, 0, 0, 1, 1]).returned 0 = some (.ok a)) ∧
      ¬ ∃ b, (twoResets [0, 0, 0, 0, 0, 1, 1]).returned 1 = some (.ok b) := by
  have hfirst := exists_ok (by decide +kernel :
    ((twoResets [0, 0, 0, 0, 0, 1, 1]).returned 0).map Except.isOk = some true)
  refine ⟨hfirst, fun ⟨b, hb⟩ => ?_⟩
  obtain ⟨a, ha⟩ := hfirst
  have heq := token_single_use demoConfig fresh_plain (reachable_demo forgotten)
    presents_twoResetCalls _ (by decide +kernel) ha hb
  cases heq

/-- Both load the token before either marks it used, and both succeed. -/
theorem token_used_twice : ¬ ∀ (w : World) (hash : String) (calls : List Call) (sched : List Nat)
    (i j : Nat) (a b : Answer), Reachable plain demoConfig w →
    (∀ c ∈ calls, Presents plain hash c) →
    ((together plain demoConfig calls w).run (handle plain) sched).returned i = some (.ok a) →
    ((together plain demoConfig calls w).run (handle plain) sched).returned j = some (.ok b) →
    i = j := by
  intro h
  obtain ⟨a, ha⟩ := exists_ok (by decide +kernel :
    ((twoResets [0, 0, 1, 1, 0, 0, 0, 1, 1, 1]).returned 0).map Except.isOk = some true)
  obtain ⟨b, hb⟩ := exists_ok (by decide +kernel :
    ((twoResets [0, 0, 1, 1, 0, 0, 0, 1, 1, 1]).returned 1).map Except.isOk = some true)
  have heq := h (demo forgotten) _ _ _ 0 1 a b (reachable_demo forgotten) presents_twoResetCalls ha hb
  cases heq

end RivicQ.Properties.Consumption
