import RivicQ.Lib.Indexes
import RivicQ.Authn.MemoryRefines
import RivicQ.Authn.Postgres

namespace RivicQ.Properties.Indexes

open RivicQ.Lib.GoStrings RivicQ.Lib.Tables RivicQ.Lib.Indexes
open RivicQ.Authn.Types RivicQ.Authn.Records RivicQ.Authn.Memory
open RivicQ.Authn

/-- A call of the store, with the readings it makes of the clock. -/
structure Call where
  t₀ : Time
  t₁ : Time
  op : StoreOp

def address (cm : CaseMap) (u : User) : String := normalizeEmail cm u.email

/-- The two user maps describe the same users, no two of them with one email. -/
structure Indexed (cm : CaseMap) (m : MemStore) : Prop where
  inStep : InStep User.id (address cm) m.usersByID m.usersByEmail
  unique : ∀ {i j u v}, m.usersByID.lookup i = some u → m.usersByID.lookup j = some v →
    address cm u = address cm v → u = v

/-- The update is of a stored user and to the email of another. -/
def Clash (cm : CaseMap) (u : User) (m : MemStore) : Prop :=
  (∃ old, m.usersByID.lookup u.id = some old) ∧
    ∃ i v, m.usersByID.lookup i = some v ∧ address cm v = address cm u ∧ v.id ≠ u.id

variable (cm : CaseMap)

def after (c : Call) (m : MemStore) : MemStore := (Memory.exec cm c.t₀ c.t₁ c.op m).2

/-- The call leaves the maps as they should be, and is refused if it asks for the email of
another user. -/
def Kept (c : Call) (m : MemStore) : Prop :=
  Indexed cm (after cm c m) ∧
    ∀ u, c.op = .updateUser u → Clash cm u m →
      updateUser cm c.t₀ u m = (.error .emailTaken, m)

/-- A user is created under a new id unless the email is taken, and no user is given the
email of another. -/
def Harmless (c : Call) (m : MemStore) : Prop :=
  match c.op with
  | .createUser u => m.usersByEmail.lookup (address cm u) = none →
      m.usersByID.lookup u.id = none
  | .updateUser u => ¬ Clash cm u m
  | _ => True

/-- Every call of a sequence finds the store as `P` asks. -/
def Along (P : Call → MemStore → Prop) : List Call → MemStore → Prop
  | [], _ => True
  | c :: cs, m => P c m ∧ Along P cs (after cm c m)

variable {cm} {m : MemStore} {u : User} {now created updated : Time}

theorem indexed_of_inStep (h : InStep User.id (address cm) m.usersByID m.usersByEmail) :
    Indexed cm m :=
  ⟨h, fun hu hv hkey => unique_of_inStep h hu hv hkey⟩

theorem indexed_empty : Indexed cm Memory.empty := indexed_of_inStep inStep_empty

theorem indexed_createUser_iff (h : Indexed cm m) :
    Indexed cm (createUser cm created updated u m).2 ↔
      (m.usersByEmail.lookup (address cm u) = none → m.usersByID.lookup u.id = none) := by
  unfold createUser
  dsimp only
  cases hfree : m.usersByEmail.lookup (normalizeEmail cm u.email) with
  | some v =>
    refine iff_of_true h fun hnone => ?_
    rw [address, hfree] at hnone
    cases hnone
  | none =>
    let stored := { u with
      createdAt := if u.createdAt = 0 then created else u.createdAt
      updatedAt := updated }
    have hstep := inStep_insert_iff (v := stored) h.inStep hfree
    constructor
    · exact fun h' _ => hstep.mp h'.inStep
    · exact fun hnew => indexed_of_inStep (hstep.mpr (hnew hfree))

theorem indexed_updateUser_iff (h : Indexed cm m) :
    Indexed cm (updateUser cm now u m).2 ↔ ¬ Clash cm u m := by
  cases hold : m.usersByID.lookup u.id with
  | none =>
    rw [updateUser, hold]
    refine iff_of_true h ?_
    rintro ⟨⟨old, hsome⟩, _⟩
    rw [hold] at hsome
    cases hsome
  | some old =>
    let stored := { u with
      updatedAt := now
      createdAt := if u.createdAt = 0 then old.createdAt else u.createdAt }
    have hold' : m.usersByID.lookup stored.id = some old := hold
    have hstep := inStep_replace_iff h.inStep hold'
    have hclash : (∀ i w, m.usersByID.lookup i = some w → address cm w = address cm stored →
        w.id = stored.id) ↔ ¬ Clash cm u m := by
      constructor
      · rintro hfree ⟨_, i, v, hv, hkey, hne⟩
        exact hne (hfree i v hv hkey)
      · intro hfree i w hw hkey
        by_contra hne
        exact hfree ⟨⟨old, hold⟩, i, w, hw, hkey, hne⟩
    rw [← hclash, ← hstep, updateUser, hold]
    exact ⟨fun h' => h'.inStep, fun h' => indexed_of_inStep h'⟩

theorem indexed_after_other (h : Indexed cm m) {c : Call} (hcreate : ∀ u, c.op ≠ .createUser u)
    (hupdate : ∀ u, c.op ≠ .updateUser u) : Indexed cm (after cm c m) := by
  obtain ⟨t₀, t₁, op⟩ := c
  cases op with
  | createUser u => exact absurd rfl (hcreate u)
  | updateUser u => exact absurd rfl (hupdate u)
  | markTokenUsed hash =>
    simp only [after, Memory.exec, markTokenUsed]
    split <;> exact indexed_of_inStep h.inStep
  | _ => exact indexed_of_inStep h.inStep

/-- A call keeps the maps of a well-indexed store exactly if it is harmless there. -/
theorem kept_iff (h : Indexed cm m) (c : Call) : Kept cm c m ↔ Harmless cm c m := by
  obtain ⟨t₀, t₁, op⟩ := c
  cases op with
  | createUser u =>
    refine Iff.trans (and_iff_left fun u hu => ?_) (indexed_createUser_iff h)
    cases hu
  | updateUser u =>
    refine Iff.trans (and_iff_left_of_imp fun hstep u' hu' hclash => ?_)
      (indexed_updateUser_iff h)
    cases hu'
    exact absurd hclash ((indexed_updateUser_iff h).mp hstep)
  | _ =>
    refine iff_of_true ⟨indexed_after_other h ?_ ?_, ?_⟩ trivial <;> intro u hu <;> cases hu

theorem along_kept_iff (h : Indexed cm m) (cs : List Call) :
    Along cm (Kept cm) cs m ↔ Along cm (Harmless cm) cs m := by
  induction cs generalizing m with
  | nil => exact Iff.rfl
  | cons c cs ih =>
    simp only [Along]
    rw [← kept_iff h]
    exact and_congr_right fun hkept => ih hkept.1

/-- The answer of the SQL store to such an update. -/
theorem postgres_refuses {db : Postgres.SQLStore} (hold : ∃ r ∈ db.users, r.id = u.id)
    (htaken : ∃ r ∈ db.users, r.id ≠ u.id ∧ r.email = normalizeEmail cm u.email) :
    Postgres.updateUser cm now u db = (.error .emailTaken, db) := by
  obtain ⟨r, hr, hid⟩ := hold
  have hrow : rowWith Postgres.UserRow.id u.id db.users ≠ none := fun h =>
    rowWith_none.mp h r hr hid
  obtain ⟨q, hq⟩ := Option.ne_none_iff_exists'.mp hrow
  obtain ⟨r', hr', hne, hemail⟩ := htaken
  have hany : db.users.any
      (fun r => r.id != u.id && r.email = normalizeEmail cm u.email) = true :=
    List.any_eq_true.mpr ⟨r', hr', by simp [hne, hemail]⟩
  rw [Postgres.updateUser, hq]
  exact if_pos hany

/-- Over any sequence of calls the in-memory store keeps its maps in step and refuses every
email that is taken, as the SQL store does, exactly if no call creates a user under a stored id
or gives a user the email of another. -/
theorem indexes_kept (cs : List Call) :
    (Along cm (Kept cm) cs Memory.empty ↔ Along cm (Harmless cm) cs Memory.empty) ∧
      ∀ now u db, (∃ r ∈ db.users, r.id = u.id) →
        (∃ r ∈ db.users, r.id ≠ u.id ∧ r.email = normalizeEmail cm u.email) →
          Postgres.updateUser cm now u db = (.error .emailTaken, db) :=
  ⟨along_kept_iff indexed_empty cs, fun _ _ _ hold htaken => postgres_refuses hold htaken⟩

def someone (id email : String) : User where
  id := id
  tenantID := "acme"
  email := email
  name := "Someone"
  role := .viewer
  organisation := "Acme"
  passwordHash := "hash"
  emailVerified := true
  mfaEnabled := false
  mfaSecret := ""
  disabled := false
  createdAt := 1
  updatedAt := 1

/-- Two users are stored, then the second is given the email of the first. -/
def renamed : List Call :=
  [⟨1, 1, .createUser (someone "a" "alice@acme.io")⟩,
    ⟨2, 2, .createUser (someone "b" "bob@acme.io")⟩,
    ⟨3, 3, .updateUser (someone "b" "alice@acme.io")⟩]

theorem renamed_not_kept : ¬ Along asciiCase (Kept asciiCase) renamed Memory.empty := by
  rintro ⟨_, _, ⟨hindexed, _⟩, _⟩
  let m := after asciiCase ⟨2, 2, .createUser (someone "b" "bob@acme.io")⟩
    (after asciiCase ⟨1, 1, .createUser (someone "a" "alice@acme.io")⟩ Memory.empty)
  let m' := after asciiCase ⟨3, 3, .updateUser (someone "b" "alice@acme.io")⟩ m
  have hstored : m'.usersByID.lookup "a" = some (someone "a" "alice@acme.io") ∧
      m'.usersByID.lookup "b" = some { someone "b" "alice@acme.io" with updatedAt := 3 } := by
    decide +kernel
  have hsame := congrArg User.id (hindexed.unique hstored.1 hstored.2 rfl)
  exact absurd hsame (by decide)

end RivicQ.Properties.Indexes
