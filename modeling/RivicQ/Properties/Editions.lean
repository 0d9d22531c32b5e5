import RivicQ.Lib.Programs
import RivicQ.Properties.Disablement

namespace RivicQ.Properties.Editions

open RivicQ.Lib.GoStrings RivicQ.Lib.Programs RivicQ.Lib.Disciplines RivicQ.Lib.Results
open RivicQ.Authn.Types RivicQ.Authn.Records RivicQ.Authn.Environment RivicQ.Authn.Operations
open RivicQ.Authn.Worlds RivicQ.Runs.Calls RivicQ.Runs.Conduct RivicQ.Runs.Alone
open RivicQ.Runs.Outcomes RivicQ.Properties.Disablement

variable {α β : Type}

section Entitlement

/-- The edition a role has without asking. -/
def roleEdition : Role → Edition
  | .admin => .enterprise
  | .operator | .analyst => .professional
  | .viewer => .oss

def rank : Edition → Nat
  | .oss => 0
  | .professional => 1
  | .enterprise => 2

/-- The edition is no higher than the one of the role. -/
def Entitled (role : Role) (edition : Edition) : Prop := rank edition ≤ rank (roleEdition role)

instance (role : Role) (edition : Edition) : Decidable (Entitled role edition) :=
  inferInstanceAs (Decidable (_ ≤ _))

theorem edition_text_inj {e e' : Edition} : e.text = e'.text ↔ e = e' := by
  cases e <;> cases e' <;> decide

theorem editionForRole_blank (cm : CaseMap) (role : Role) :
    editionForRole cm "" role = roleEdition role := by
  cases role <;> rfl

end Entitlement

section Grants

variable (env : Env) (cfg : Config)

/-- The edition an issuing operation puts into the token of a user with a role. -/
def granted (c : Call) (role : Role) : Edition :=
  match c with
  | .login _ _ edition _ _ => editionForRole env.cases edition role
  | .issueTokens _ edition _ _ => editionForRole env.cases edition role
  | .demoLogin _ _ => .oss
  | _ => editionForRole env.cases "" role

/-- The pair carries an access token signed for the edition. -/
def Carries (edition : Role → Edition) (pair : TokenPair) : Prop :=
  ∃ claims, env.signedString cfg.secret claims = .ok pair.accessToken ∧
    claims.edition = (edition pair.user.role).text

/-- Whenever the program succeeds, its value satisfies `Post`. -/
def Gives (Post : α → Prop) (p : Prog α) : Prop := Returns (fun r => ∀ a, r = .ok a → Post a) p

variable {env cfg} {p : Prog α} {k : α → Prog β} {Post : β → Prop}

theorem gives_fail (e : Err) : Gives Post (fail e) := returns_pure.mpr fun _ h => nomatch h

theorem gives_done {b : β} (h : Post b) : Gives Post (done b) :=
  returns_pure.mpr fun _ hb => Except.ok.inj hb ▸ h

theorem gives_orReturn {Mid : α → Prop} (hp : Gives Mid p) (hk : ∀ a, Mid a → Gives Post (k a)) :
    Gives Post (orReturn p k) := by
  refine returns_bind hp fun r hr => ?_
  cases r with
  | error e => exact gives_fail e
  | ok a => exact hk a (hr a rfl)

theorem gives_of_forall (hk : ∀ a, Gives Post (k a)) : Gives Post (orReturn p k) := by
  refine returns_of_forall fun r => ?_
  cases r with
  | error e => exact gives_fail e
  | ok a => exact hk a

theorem gives_orFail {e : Err} (hk : ∀ a, Gives Post (k a)) : Gives Post (orFail p e k) := by
  refine returns_of_forall fun r => ?_
  cases r with
  | error e' => exact gives_fail e
  | ok a => exact hk a

theorem gives_revoked {q : Program Calls α} {e : Err} :
    Gives Post (q.bind fun _ => (fail e : Prog β)) := returns_of_forall fun _ => gives_fail e

variable {edition : Role → Edition}

/-- The pair a signed token goes into. -/
theorem gives_signed (u : User) (issuedAt : Time) (raw : String) :
    Gives (Carries env cfg edition) (orReturn (sign env cfg u (edition u.role) issuedAt)
      fun access => done (tokenPair cfg access raw u)) := by
  have hsigned : Gives (fun access => ∃ claims, env.signedString cfg.secret claims = .ok access ∧
      claims.edition = (edition u.role).text) (sign env cfg u (edition u.role) issuedAt) :=
    returns_request.mpr fun id => returns_pure.mpr fun access h => ⟨_, h, rfl⟩
  refine gives_orReturn hsigned ?_
  rintro access ⟨claims, hsigned, hedition⟩
  exact gives_done ⟨claims, hsigned, hedition⟩

theorem gives_issueSession (edition : Role → Edition) (u : User) (userAgent ip : String) :
    Gives (Carries env cfg edition) (issueSession env cfg u (edition u.role) userAgent ip) := by
  refine returns_request.mpr fun issuedAt => gives_of_forall fun token => ?_
  refine returns_request.mpr fun id => gives_of_forall fun _ => ?_
  exact gives_signed u issuedAt token.1

theorem gives_login (email password asked userAgent ip : String) :
    Gives (fun res => ∀ pair, res = .tokens pair →
      Carries env cfg (editionForRole env.cases asked) pair)
      (login env cfg email password asked userAgent ip) := by
  refine gives_orFail fun u => ?_
  split
  · exact gives_fail _
  split
  · exact gives_fail _
  split
  · exact gives_fail _
  split
  · exact gives_of_forall fun raw => gives_done fun _ h => nomatch h
  · refine gives_orReturn (gives_issueSession _ u userAgent ip) fun pair hpair => ?_
    exact gives_done fun pair' h => LoginResult.tokens.inj h ▸ hpair

theorem gives_verifyMFA (mfaSession code userAgent ip : String) :
    Gives (Carries env cfg (editionForRole env.cases ""))
      (verifyMFA env cfg mfaSession code userAgent ip) := by
  refine gives_orFail ?_
  rintro ⟨tok, u⟩
  have hvalid : ∀ valid, Gives (Carries env cfg (editionForRole env.cases ""))
      (if !valid then fail .invalidMFACode
        else orFail (store (.markTokenUsed tok.hash)) .invalidMFASession fun _ =>
          issueSession env cfg u (editionForRole env.cases "" u.role) userAgent ip) := by
    intro valid
    split
    · exact gives_fail _
    · exact gives_orFail fun _ => gives_issueSession _ u userAgent ip
  change Gives _ (totpValid u code _)
  unfold totpValid
  split
  · exact hvalid false
  · exact returns_request.mpr hvalid

theorem gives_refresh (refreshToken userAgent ip : String) :
    Gives (Carries env cfg (editionForRole env.cases ""))
      (refresh env cfg refreshToken userAgent ip) := by
  refine gives_orFail fun sess => returns_request.mpr fun t => ?_
  split
  · split
    · exact gives_revoked
    · exact gives_fail _
  split
  · exact gives_fail _
  refine returns_of_forall fun found => ?_
  cases found with
  | error e => exact gives_revoked
  | ok u =>
    simp only
    split
    · exact gives_revoked
    · refine gives_of_forall fun token => returns_request.mpr fun id => ?_
      exact gives_of_forall fun _ => gives_of_forall fun _ => gives_signed u t token.1

theorem gives_demoLogin (userAgent ip : String) :
    Gives (Carries env cfg fun _ => .oss) (demoLogin env cfg userAgent ip) := by
  unfold demoLogin
  split
  · exact gives_fail _
  · exact gives_orFail fun u => gives_issueSession (fun _ => .oss) u userAgent ip

/-- What an operation that answers with a pair promises of the pair. -/
theorem carries_answering {f : α → Answer} {q : Prog α} {c : Call}
    (hc : program env cfg c = answering f q) {Post : TokenPair → Prop}
    (hq : Gives (fun a => ∀ pair, (f a).pair = some pair → Post pair) q) {w : World}
    {pair : TokenPair} (hpair : pairOf (outcome env cfg c w) = some pair) : Post pair := by
  obtain ⟨a, ha, hp⟩ := ok_of_pairOf hpair
  have hanswer : Gives (fun a => ∀ pair, a.pair = some pair → Post pair) (program env cfg c) := by
    rw [hc]
    exact gives_orReturn hq fun a h => gives_done h
  exact run_returns (handle env) hanswer w a ha pair hp

/-- Every issuing operation signs a token for the edition it grants. -/
theorem carries_granted {c : Call} (hc : Issues c) {w : World} {pair : TokenPair}
    (hpair : pairOf (outcome env cfg c w) = some pair) :
    Carries env cfg (granted env c) pair := by
  have htokens : ∀ {edition : Role → Edition} {q : Prog TokenPair},
      Gives (Carries env cfg edition) q →
      Gives (fun a => ∀ pair, (Answer.tokens a).pair = some pair →
        Carries env cfg edition pair) q :=
    fun hq => returns_mono (fun r h a ha pair hp => Option.some.inj hp ▸ h a ha) hq
  cases c with
  | login email password edition userAgent ip =>
    refine carries_answering (c := .login email password edition userAgent ip) rfl
      (returns_mono (fun r h res hres pair hp => ?_)
        (gives_login email password edition userAgent ip)) hpair
    cases res with
    | mfaRequired user mfaSession => cases hp
    | tokens pair' => exact h _ hres pair (congrArg _ (Option.some.inj hp))
  | verifyMFA mfaSession code userAgent ip =>
    exact carries_answering (c := .verifyMFA mfaSession code userAgent ip) rfl
      (htokens (gives_verifyMFA mfaSession code userAgent ip)) hpair
  | refresh refreshToken userAgent ip =>
    exact carries_answering (c := .refresh refreshToken userAgent ip) rfl
      (htokens (gives_refresh refreshToken userAgent ip)) hpair
  | demoLogin userAgent ip =>
    exact carries_answering (c := .demoLogin userAgent ip) rfl
      (htokens (gives_demoLogin userAgent ip)) hpair
  | issueTokens u edition userAgent ip =>
    exact carries_answering (c := .issueTokens u edition userAgent ip) rfl
      (htokens (gives_issueSession _ u userAgent ip)) hpair
  | _ => exact hc.elim

end Grants

section Subjects

/-- The record a pair is issued for: the stored one, or the one the caller brings. -/
def Subject (w : World) (c : Call) (pair : TokenPair) (u : User) : Prop :=
  match c with
  | .issueTokens v _ _ _ => u = v
  | _ => w.ledger.user pair.user.id = some u

variable {env : Env} {cfg : Config} {w : World}

theorem role_of_issuedFor {u v : User} {pair : TokenPair} {w' : World}
    (h : IssuedFor w v pair w') (hu : w.ledger.user pair.user.id = some u) :
    u.role = pair.user.role := by
  rw [h.pair] at hu ⊢
  rw [show u = v from Option.some.inj (hu.symm.trans h.stored)]
  rfl

/-- A pair is for the role of its subject. -/
theorem subject_role (hf : Fresh env) (hw : Sound env w) {c : Call} (hc : Issues c)
    {pair : TokenPair} (hpair : pairOf (outcome env cfg c w) = some pair) {u : User}
    (hu : Subject w c pair u) : u.role = pair.user.role := by
  obtain ⟨a, h, hp⟩ := ok_of_pairOf hpair
  cases c with
  | login email password edition userAgent ip =>
    obtain ⟨res, rfl, hres⟩ := after_delivers (c := .login email password edition userAgent ip)
      (by rfl) hw (delivers_login hf hw email password edition userAgent ip) h
    cases res with
    | mfaRequired user mfaSession => cases hp
    | tokens pair' =>
      cases hp
      obtain ⟨v, _, _, hissued⟩ := hres pair rfl
      exact role_of_issuedFor hissued hu
  | verifyMFA mfaSession code userAgent ip =>
    obtain ⟨pair', rfl, tok, v, _, _, _, hissued⟩ :=
      after_delivers (c := .verifyMFA mfaSession code userAgent ip) (by rfl) hw
        (delivers_verifyMFA hf hw mfaSession code userAgent ip) h
    cases hp
    exact role_of_issuedFor hissued hu
  | refresh refreshToken userAgent ip =>
    obtain ⟨pair', rfl, sess, v, _, _, _, _, _, hissued, _⟩ :=
      after_delivers (c := .refresh refreshToken userAgent ip) (by rfl) hw
        (delivers_refresh hf hw refreshToken userAgent ip) h
    cases hp
    exact role_of_issuedFor hissued hu
  | demoLogin userAgent ip =>
    obtain ⟨pair', rfl, _, v, _, hissued⟩ := after_delivers (c := .demoLogin userAgent ip)
      (by rfl) hw (delivers_demoLogin hf hw userAgent ip) h
    cases hp
    exact role_of_issuedFor hissued hu
  | issueTokens v edition userAgent ip =>
    obtain ⟨pair', rfl, huser, _⟩ := after_delivers (c := .issueTokens v edition userAgent ip)
      (by rfl) hw (delivers_issueSession conduct_admits hf hw v _ userAgent ip) h
    cases hp
    rw [show u = v from hu, huser]
    rfl
  | _ => exact hc.elim

end Subjects

section Later

variable (env : Env) (cfg : Config)

/-- The state after some calls, interleaved in some way. -/
def Later (w w' : World) : Prop :=
  ∃ calls sched, ((together env cfg calls w).run (handle env) sched).world = w'

/-- The token is for an edition its user is entitled to, and a refresh of the session, however
much later, issues another one for the same edition. -/
structure Keeps (editionOf : String → String) (w : World) (c : Call) (pair : TokenPair) (u : User) :
    Prop where
  entitled : ∃ edition, Entitled u.role edition ∧ editionOf pair.accessToken = edition.text
  refreshed : ∀ w' userAgent ip pair', Later env cfg (after env cfg c w) w' →
    pairOf (outcome env cfg (.refresh pair.refreshToken userAgent ip) w') = some pair' →
    editionOf pair'.accessToken = editionOf pair.accessToken

/-- What an access token says its edition is, read off any token that is signed. -/
def Reads (editionOf : String → String) : Prop :=
  ∀ claims token, env.signedString cfg.secret claims = .ok token → editionOf token = claims.edition

variable {env cfg} {w : World} {editionOf : String → String}

theorem sound_later (hf : Fresh env) (hw : Sound env w) {w' : World} (h : Later env cfg w w') :
    Sound env w' := by
  obtain ⟨calls, sched, rfl⟩ := h
  exact (kept_run (fun h => h) (kept_together hf cfg hw calls) sched).1.inv

theorem editionOf_issued (hf : Fresh env) (hread : Reads env cfg editionOf) (hw : Sound env w)
    {c : Call} (hc : Issues c) {pair : TokenPair}
    (hpair : pairOf (outcome env cfg c w) = some pair) {u : User} (hu : Subject w c pair u) :
    editionOf pair.accessToken = (granted env c u.role).text := by
  obtain ⟨claims, hsigned, hedition⟩ := carries_granted hc hpair
  rw [hread claims _ hsigned, hedition, subject_role hf hw hc hpair hu]

/-- A refresh finds the record it issues its pair for. -/
theorem exists_subject (hf : Fresh env) (hw : Sound env w) {refreshToken userAgent ip : String}
    {pair : TokenPair}
    (hpair : pairOf (outcome env cfg (.refresh refreshToken userAgent ip) w) = some pair) :
    ∃ u, Subject w (.refresh refreshToken userAgent ip) pair u := by
  obtain ⟨a, h, hp⟩ := ok_of_pairOf hpair
  obtain ⟨pair', rfl, sess, v, _, _, _, _, _, hissued, _⟩ :=
    after_delivers (c := .refresh refreshToken userAgent ip) (by rfl) hw
      (delivers_refresh hf hw refreshToken userAgent ip) h
  cases hp
  refine ⟨v, ?_⟩
  change w.ledger.user pair.user.id = some v
  rw [hissued.pair]
  exact hissued.stored

end Later

section Requests

/-- Surroundings whose tokens show their edition. -/
def shown : Env := { plain with signedString := fun _ claims => .ok claims.edition }

theorem fresh_shown : Fresh shown := ⟨fresh_plain.uuid, fresh_plain.uuid_ne, fresh_plain.token⟩

theorem reads_shown : Reads shown demoConfig id := fun _ _ h => (Except.ok.inj h).symm

/-- A viewer has registered. -/
def registered : World :=
  serially shown demoConfig [.register "Ada" "ada@example.org" "Tr0ub4dor-lake" ""]
    (start (.memory RivicQ.Authn.Memory.empty))

theorem reachable_registered : Reachable shown demoConfig registered :=
  reachable_serially (Or.inl rfl) _

/-- The viewer signs in and asks for the enterprise edition. -/
def upgrade : Call := .login "ada@example.org" "Tr0ub4dor-lake" " Enterprise" "" ""

theorem exists_upgraded : ∃ pair u,
    pairOf (outcome shown demoConfig upgrade registered) = some pair ∧
      Subject registered upgrade pair u ∧ u.role = .viewer ∧ pair.accessToken = "enterprise" := by
  have hfound : ∃ pair ∈ pairOf (outcome shown demoConfig upgrade registered),
      ∃ u ∈ registered.ledger.user pair.user.id, u.role = .viewer ∧
        pair.accessToken = "enterprise" := by decide +kernel
  obtain ⟨pair, hpair, u, hu, hrole, htoken⟩ := hfound
  exact ⟨pair, u, hpair, hu, hrole, htoken⟩

end Requests

end RivicQ.Properties.Editions
