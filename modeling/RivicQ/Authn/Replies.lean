import RivicQ.Authn.PostgresRefines

namespace RivicQ.Authn.Replies

open RivicQ.Lib.GoStrings RivicQ.Lib.Tables RivicQ.Authn.Types RivicQ.Authn.Records
open RivicQ.Authn.Stores

/-- The `UNIQUE` constraint on the emails of the SQL store. -/
def DistinctEmails : Store → Prop
  | .memory _ => True
  | .postgres db => (db.users.map Postgres.UserRow.email).Nodup

section Rows

variable {R K : Type} {id email : R → K} {p : R → Bool} {f : R → R} {rows : List R} {k : K}

/-- A write to the one row with a key keeps a column distinct if no other row has the new value. -/
theorem nodup_updateWhere_of_new (hid : (rows.map id).Nodup) (hemail : (rows.map email).Nodup)
    {i : K} (hp : ∀ r, p r = true → id r = i) (hf : ∀ r, email (f r) = k)
    (hnew : ∀ r ∈ rows, id r ≠ i → email r ≠ k) : ((updateWhere p f rows).map email).Nodup := by
  have hpairs := List.pairwise_and_iff.mpr ⟨List.pairwise_map.mp hid, List.pairwise_map.mp hemail⟩
  rw [updateWhere, List.map_map]
  refine List.pairwise_map.mpr (hpairs.imp_of_mem fun {r q} hr hq hne => ?_)
  rw [Function.comp_apply, Function.comp_apply]
  cases hpr : p r <;> cases hpq : p q
  · exact hne.2
  · simp only [Bool.false_eq_true, if_false, if_true, hf]
    exact hnew r hr fun h => hne.1 (h.trans (hp q hpq).symm)
  · simp only [Bool.false_eq_true, if_false, if_true, hf]
    exact (hnew q hq fun h => hne.1 ((hp r hpr).trans h.symm)).symm
  · exact absurd ((hp r hpr).trans (hp q hpq).symm) hne.1

end Rows

variable {cm : CaseMap} {st : Store}

theorem distinct_empty (h : Store.Empty st) : DistinctEmails st := by
  obtain rfl | rfl := h
  · exact trivial
  · exact List.nodup_nil

theorem distinct_createUser {db : Postgres.SQLStore} (now : Time) (u : User)
    (hd : DistinctEmails (.postgres db)) :
    DistinctEmails (.postgres (Postgres.createUser cm now u db).2) := by
  unfold Postgres.createUser
  dsimp only
  split
  · exact hd
  · rename_i hany
    rw [Bool.not_eq_true, List.any_eq_false] at hany
    exact nodup_append hd fun r hr he => hany r hr (by simp [he])

theorem distinct_updateUser {db : Postgres.SQLStore} (hk : PostgresRefines.Keyed cm db) (now : Time)
    (u : User) (hd : DistinctEmails (.postgres db)) :
    DistinctEmails (.postgres (Postgres.updateUser cm now u db).2) := by
  unfold Postgres.updateUser
  split
  · exact hd
  split
  · exact hd
  · rename_i hany
    rw [Bool.not_eq_true, List.any_eq_false] at hany
    refine nodup_updateWhere_of_new hk.userID hd (fun r hr => of_decide_eq_true hr)
      (fun r => rfl) fun r hr hne he => hany r hr ?_
    rw [Bool.and_eq_true, bne_iff_ne, decide_eq_true_eq]
    exact ⟨hne, he⟩

/-- No call makes two emails equal. -/
theorem distinct_exec (hw : st.WellFormed cm) (hd : DistinctEmails st) (t₀ t₁ : Time)
    (fault : Option Err) (o : StoreOp) : DistinctEmails (st.exec cm t₀ t₁ fault o).2 := by
  cases st with
  | memory m => exact trivial
  | postgres db =>
    cases fault with
    | some e => exact hd
    | none =>
      cases o with
      | createUser u => exact distinct_createUser t₀ u hd
      | updateUser u => exact distinct_updateUser hw t₀ u hd
      | createSession s =>
        change DistinctEmails (.postgres (Postgres.createSession s db).2)
        unfold Postgres.createSession
        split <;> exact hd
      | createToken t =>
        change DistinctEmails (.postgres (Postgres.createToken t db).2)
        unfold Postgres.createToken
        split <;> exact hd
      | markTokenUsed hash =>
        change DistinctEmails (.postgres (Postgres.markTokenUsed t₀ hash db).2)
        unfold Postgres.markTokenUsed
        split <;> exact hd
      | _ => exact hd

section Undisturbed

variable (t₀ t₁ : Time)

/-- What a reader finds, if no statement fails. -/
def found {α : Type} (e : Err) : Option α → Except Err α
  | none => .error e
  | some a => .ok a

theorem exec_getToken (hash : String) : st.exec cm t₀ t₁ none (.getToken hash) =
    (found .invalidToken (st.ledger.token (trimSpace hash)), st) := by
  cases st with
  | memory m =>
    refine Prod.ext ?_ rfl
    change Memory.getToken hash m = found _ (m.tokens.lookup (trimSpace hash))
    unfold Memory.getToken
    cases m.tokens.lookup (trimSpace hash) <;> rfl
  | postgres db =>
    refine Prod.ext ?_ rfl
    change Postgres.getToken hash db = found _ (rowWith Token.hash (trimSpace hash) db.tokens)
    unfold Postgres.getToken
    cases rowWith Token.hash (trimSpace hash) db.tokens <;> rfl

theorem exec_getUserByID (id : String) : st.exec cm t₀ t₁ none (.getUserByID id) =
    (found .userNotFound (st.ledger.user id), st) := by
  cases st with
  | memory m =>
    refine Prod.ext ?_ rfl
    change Memory.getUserByID id m = found _ (m.usersByID.lookup id)
    unfold Memory.getUserByID
    cases m.usersByID.lookup id <;> rfl
  | postgres db =>
    refine Prod.ext ?_ rfl
    change Postgres.getUserByID id db =
      found _ ((rowWith Postgres.UserRow.id id db.users).map Postgres.scanUser)
    unfold Postgres.getUserByID
    cases rowWith Postgres.UserRow.id id db.users <;> rfl

theorem exec_markTokenUsed {hash : String} {t : Token}
    (ht : st.ledger.token (trimSpace hash) = some t) :
    (st.exec cm t₀ t₁ none (.markTokenUsed hash)).1 = .ok () := by
  cases st with
  | memory m =>
    change m.tokens.lookup (trimSpace hash) = some t at ht
    change (Memory.markTokenUsed t₀ hash m).1 = .ok ()
    rw [Memory.markTokenUsed, ht]
  | postgres db =>
    change rowWith Token.hash (trimSpace hash) db.tokens = some t at ht
    change (Postgres.markTokenUsed t₀ hash db).1 = .ok ()
    rw [Postgres.markTokenUsed, ht]

/-- A record under a stored email can be written back. -/
theorem exec_updateUser (hw : st.WellFormed cm) (hd : DistinctEmails st) {u old : User}
    (hold : st.ledger.user u.id = some old) (hemail : u.email = old.email) :
    (st.exec cm t₀ t₁ none (.updateUser u)).1 = .ok () := by
  cases st with
  | memory m =>
    change m.usersByID.lookup u.id = some old at hold
    change (Memory.updateUser cm t₀ u m).1 = .ok ()
    rw [Memory.updateUser, hold]
  | postgres db =>
    obtain ⟨r, hr, rfl⟩ := Option.map_eq_some_iff.mp hold
    obtain ⟨hmem, hid⟩ := rowWith_some hr
    have hrow : Postgres.UserRow.email r = normalizeEmail cm u.email := by
      rw [hemail]
      exact ((hw.email r hmem).symm : r.email = normalizeEmail cm r.email)
    have hfree : db.users.any
        (fun q => q.id != u.id && q.email = normalizeEmail cm u.email) = false := by
      refine List.any_eq_false.mpr fun q hq h => ?_
      rw [Bool.and_eq_true, bne_iff_ne, decide_eq_true_eq] at h
      have heq := List.inj_on_of_nodup_map hd hq hmem (h.2.trans hrow.symm)
      exact h.1 (heq ▸ hid)
    change (Postgres.updateUser cm t₀ u db).1 = .ok ()
    rw [Postgres.updateUser, hr]
    simp only [hfree, Bool.false_eq_true, if_false]

theorem exec_revokeSessionsForUser (userID : String) :
    (st.exec cm t₀ t₁ none (.revokeSessionsForUser userID)).1 = .ok () := by
  cases st <;> rfl

end Undisturbed

end RivicQ.Authn.Replies
