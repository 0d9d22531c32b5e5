import RivicQ.Runs.Alone

namespace RivicQ.Properties.Profile

open RivicQ.Lib.GoStrings RivicQ.Lib.Programs RivicQ.Lib.Disciplines RivicQ.Authn.Types
open RivicQ.Authn.Records RivicQ.Authn.Environment RivicQ.Authn.Operations RivicQ.Authn.Handlers
open RivicQ.Authn.Worlds RivicQ.Authn.Rules RivicQ.Runs.Calls RivicQ.Runs.Conduct
open RivicQ.Runs.Alone

/-- The ledgers differ at most in the record of one user, where `edit` relates
the two versions. -/
structure Frames (edit : User → User → Prop) (id : String) (v v' : Ledger) : Prop where
  record : ∀ u, v.user id = some u → ∃ u', v'.user id = some u' ∧ edit u u'
  others : ∀ id', id' ≠ id → v'.user id' = v.user id'
  session : v'.session = v.session
  token : v'.token = v.token

def EditsName (u u' : User) : Prop := u' = { u with name := u'.name, updatedAt := u'.updatedAt }

def EditsRole (u u' : User) : Prop := u' = { u with role := u'.role, updatedAt := u'.updatedAt }

/-- The account has neither a password nor a secret that could be lost. -/
def NoSecrets (id : String) (v : Ledger) : Prop :=
  ∀ u, v.user id = some u → u.passwordHash = "" ∧ u.mfaSecret = ""

variable {env : Env} {cfg : Config} {w : World}

/-- What storing the public view of a record leaves of it. -/
def Published (u v : User) : Prop :=
  v = { publicUser u with name := v.name, role := v.role, updatedAt := v.updatedAt }

theorem published_of_updates {cm : CaseMap} {u v : User} {n : String} {r : Role}
    (h : Updates cm u { publicUser u with name := n, role := r } v) :
    Published u v ∧ v.name = n ∧ v.role = r := by
  have hsecret : v.mfaSecret = "" := by
    obtain h | ⟨_, h⟩ := h.mfaSecret <;> exact h
  refine ⟨?_, h.name, h.role⟩
  apply User.ext
  · exact h.id
  · exact h.sameTenant rfl
  · exact h.sameEmail rfl
  · rfl
  · rfl
  · exact h.organisation
  · exact h.passwordHash
  · exact h.emailVerified
  · exact h.mfaEnabled
  · exact hsecret
  · exact h.disabled
  · exact h.sameCreation rfl
  · rfl

theorem published_iff {u v : User} (h : Published u v) :
    v = { u with name := v.name, role := v.role, updatedAt := v.updatedAt } ↔
      u.passwordHash = "" ∧ u.mfaSecret = "" := by
  unfold Published at h
  constructor
  · intro he
    have hp : v.passwordHash = u.passwordHash := (congrArg User.passwordHash he :)
    have hs : v.mfaSecret = u.mfaSecret := (congrArg User.mfaSecret he :)
    rw [h] at hp hs
    exact ⟨hp.symm, hs.symm⟩
  · rintro ⟨hp, hs⟩
    rw [h]
    simp only [publicUser, hp, hs]

/-- A record that was looked up in the world `w` has been written back. -/
def WrittenBack (w : World) (id n : String) (r : Role) (w' : World) : Prop :=
  ∃ u v, w.ledger.user id = some u ∧ Published u v ∧ v.name = n ∧ v.role = r ∧
    w'.ledger = putUser w.ledger v

theorem guarded_writeBack {α : Type} (hw : Sound env w) {w₁ : World} (hw₁ : Sound env w₁)
    (hl : w₁.ledger = w.ledger) {id n : String} {u : User} {r : Role}
    (hu : w.ledger.user id = some u) (e : Err) (a : α) :
    Delivers (alone env) (fun _ w' => WrittenBack w id n r w')
      (orFail (updateUser { publicUser u with name := n, role := r }) e fun _ => done a) w₁ := by
  refine guarded_serve conduct_admits hw₁ ⟨trivial, trivial⟩ fun reply w₂ _ _ _ hs => ?_
  obtain ⟨hr, _⟩ | ⟨rfl, old, v, hold, hupd, he⟩ := hs
  · cases reply with
    | ok _ => cases hr
    | error _ => exact delivers_fail e
  · have hid : u.id = id := hw.keyed.user hu
    have hsame : old = u := by
      change w₁.ledger.user u.id = some old at hold
      rw [hl, hid, hu] at hold
      exact (Option.some.inj hold).symm
    subst hsame
    obtain ⟨hp, hn, hr⟩ := published_of_updates hupd
    refine delivers_alone_done ⟨old, v, hu, hp, hn, hr, ?_⟩
    rw [he, hl]

theorem guarded_lookup {α : Type} {Post : α → World → Prop} (hw : Sound env w)
    {id : String} {e : Err} {k : User → Prog α}
    (hk : ∀ u w', Sound env w' → w'.ledger = w.ledger → w.ledger.user id = some u →
      Delivers (alone env) Post (k (publicUser u)) w') :
    Delivers (alone env) Post (orFail (lookupByID id) e k) w := by
  refine guarded_serve conduct_admits hw ⟨trivial, trivial⟩ fun reply w' hw' _ _ hs => ?_
  cases reply with
  | error e' => exact delivers_fail e
  | ok u => exact hk u w' hw' hs.1 (hs.2.1 u rfl)

theorem patchMe_writes (hw : Sound env w) {id : String} {body : Option String} {a : Answer}
    (h : outcome env cfg (.patchMe id body) w = .ok a) :
    ∃ u n, w.ledger.user id = some u ∧
      WrittenBack w id n u.role (after env cfg (.patchMe id body) w) := by
  have hg : Delivers (alone env) (fun _ w' =>
      ∃ u n, w.ledger.user id = some u ∧ WrittenBack w id n u.role w') (patchMe id body) w := by
    unfold patchMe
    split
    · exact delivers_fail _
    rename_i name
    split
    · exact delivers_fail _
    refine guarded_lookup hw fun u w' hw' hl hu => ?_
    exact delivers_mono (fun _ _ _ hr => ⟨u, trimSpace name, hu, hr⟩)
      (guarded_writeBack hw hw' hl hu (.http 500 "Failed to update profile") _)
  exact (after_delivers (c := .patchMe id body) (by rfl) hw hg h).choose_spec.2

theorem patchWorkspaceRole_writes (hw : Sound env w) {callerID tenantID id : String}
    {body : Option String} {a : Answer}
    (h : outcome env cfg (.patchWorkspaceRole callerID tenantID id body) w = .ok a) :
    ∃ u r, w.ledger.user id = some u ∧
      WrittenBack w id u.name r (after env cfg (.patchWorkspaceRole callerID tenantID id body) w) := by
  have hg : Delivers (alone env) (fun _ w' =>
      ∃ u r, w.ledger.user id = some u ∧ WrittenBack w id u.name r w')
      (patchWorkspaceRole env.cases callerID tenantID id body) w := by
    unfold patchWorkspaceRole
    split
    · exact delivers_fail _
    extract_lets raw
    split
    · exact delivers_fail _
    refine guarded_lookup hw fun u w' hw' hl hu => ?_
    split
    · exact delivers_fail _
    extract_lets target
    split
    · exact delivers_fail _
    · exact delivers_mono (fun _ _ _ hr => ⟨u, normalizeRole env.cases raw, hu, hr⟩)
        (guarded_writeBack hw hw' hl hu (.http 500 "Failed to update role") _)
  exact (after_delivers (c := .patchWorkspaceRole callerID tenantID id body) (by rfl) hw hg
    h).choose_spec.2

/-- Writing a public view back frames the rest of the record exactly where there
is nothing to lose. -/
theorem frames_iff {w' : World} {edit : User → User → Prop} {id n : String} {r : Role}
    (hw : Sound env w) (h : WrittenBack w id n r w')
    (hedit : ∀ u v, w.ledger.user id = some u → Published u v → v.name = n → v.role = r →
      (edit u v ↔ v = { u with name := v.name, role := v.role, updatedAt := v.updatedAt })) :
    Frames edit id w.ledger w'.ledger ↔ NoSecrets id w.ledger := by
  obtain ⟨u, v, hu, hp, hn, hr, he⟩ := h
  have hvid : v.id = id := by
    have hid : v.id = u.id := by rw [hp]; rfl
    rw [hid, hw.keyed.user hu]
  have hnew : w'.ledger.user id = some v := by rw [he]; exact if_pos hvid.symm
  have hiff := (hedit u v hu hp hn hr).trans (published_iff hp)
  constructor
  · intro hf u₀ hu₀
    rw [hu] at hu₀
    cases hu₀
    obtain ⟨v', hv', he'⟩ := hf.record u hu
    rw [hnew] at hv'
    cases hv'
    exact hiff.mp he'
  · intro hs
    refine ⟨fun u₀ hu₀ => ?_, fun id' hid' => ?_, by rw [he]; rfl, by rw [he]; rfl⟩
    · rw [hu] at hu₀
      cases hu₀
      exact ⟨v, hnew, hiff.mpr (hs u hu)⟩
    · rw [he]
      exact if_neg fun h => hid' (h.trans hvid)

/-- Both handlers frame the rest of the record they edit exactly where it holds
neither a password hash nor a secret: they write back a public view. -/
theorem edits_frame (hf : Fresh env) (hw : Reachable env cfg w) :
    (∀ id body a, outcome env cfg (.patchMe id body) w = .ok a →
      (Frames EditsName id w.ledger (after env cfg (.patchMe id body) w).ledger ↔
        NoSecrets id w.ledger)) ∧
    (∀ callerID tenantID id body a,
      outcome env cfg (.patchWorkspaceRole callerID tenantID id body) w = .ok a →
      (Frames EditsRole id w.ledger
        (after env cfg (.patchWorkspaceRole callerID tenantID id body) w).ledger ↔
        NoSecrets id w.ledger)) := by
  have hsound := reachable_sound hf cfg hw
  constructor
  · intro id body a h
    obtain ⟨u, n, hu, hwrite⟩ := patchMe_writes hsound h
    refine frames_iff hsound hwrite fun u' v hu' _ _ hr => ?_
    rw [hu] at hu'
    cases hu'
    unfold EditsName
    rw [hr]
  · intro callerID tenantID id body a h
    obtain ⟨u, r, hu, hwrite⟩ := patchWorkspaceRole_writes hsound h
    refine frames_iff hsound hwrite fun u' v hu' _ hn _ => ?_
    rw [hu] at hu'
    cases hu'
    unfold EditsRole
    rw [hn]

/-- Ada signs in and changes her name. -/
def renamed : List Call := signedIn ++ [.patchMe "00" (some "Ada L.")]

/-- Once her record has nothing left to lose, a second change frames it. -/
theorem edits_frame_again : Frames EditsName "00" (demo renamed).ledger
    (after plain demoConfig (.patchMe "00" (some "Ada")) (demo renamed)).ledger := by
  obtain ⟨a, ha⟩ := exists_ok (by decide +kernel :
    (some (outcome plain demoConfig (.patchMe "00" (some "Ada")) (demo renamed))).map Except.isOk =
      some true)
  refine ((edits_frame fresh_plain (reachable_demo renamed)).1 "00" (some "Ada") a
    (Option.some.inj ha)).mpr ?_
  exact (by decide +kernel : ∀ u ∈ (demo renamed).ledger.user "00",
    u.passwordHash = "" ∧ u.mfaSecret = "")

/-- The first change loses the password: the sign-in that worked before fails. -/
theorem patchMe_loses_password :
    (¬ ∀ (w : World) (id : String) (body : Option String) (a : Answer),
      Reachable plain demoConfig w → outcome plain demoConfig (.patchMe id body) w = .ok a →
      Frames EditsName id w.ledger (after plain demoConfig (.patchMe id body) w).ledger) ∧
    outcome plain demoConfig (.login "ada@example.org" "Tr0ub4dor-lake" "" "" "") (demo renamed) =
      .error .invalidCredentials := by
  constructor
  · intro h
    obtain ⟨a, ha⟩ := exists_ok (by decide +kernel :
      (some (outcome plain demoConfig (.patchMe "00" (some "Ada L.")) (demo signedIn))).map
        Except.isOk = some true)
    have hframe := h (demo signedIn) "00" (some "Ada L.") a (reachable_demo signedIn)
      (Option.some.inj ha)
    have hhash : ∃ u ∈ (demo signedIn).ledger.user "00",
        ∀ u' ∈ (demo renamed).ledger.user "00", u'.passwordHash ≠ u.passwordHash := by
      decide +kernel
    obtain ⟨u, hu, hne⟩ := hhash
    obtain ⟨u', hu', hedit⟩ := hframe.record u hu
    exact hne u' hu' (congrArg User.passwordHash hedit :)
  · decide +kernel

end RivicQ.Properties.Profile
