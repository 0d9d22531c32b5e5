import RivicQ.Enterprise.APIKeys
import RivicQ.Lib.Projections

namespace RivicQ.Properties.APIKeys

open RivicQ.Lib.Tables RivicQ.Lib.Bytes RivicQ.Lib.Base64 RivicQ.Lib.Projections
open RivicQ.Enterprise.APIKeys
open RivicQ.Enterprise.Compliance (Time)

variable (m : APIKeyManager)

/-- The header carries the raw key of a row. -/
def Carries (authHeader : Bytes) (k : APIKey) : Prop :=
  ∃ rawKey, authHeader = ascii "Bearer " ++ rawKey ∧ k.keyHash = hashAPIKey m rawKey

def Live (now : Time) (k : APIKey) : Prop := k.status = "active" ∧ expired now k = false

/-- The handlers that follow are reached. -/
def accepted : Reply → Bool
  | .passed _ | .unavailable _ _ => true
  | _ => false

/-- An attempt is answered, is accepted exactly if it carries a key that is active and not expired,
and is then given the tenant and the role of that key. -/
def Faithful (db : Database) (c : Call) : Prop :=
  match c.request with
  | .authenticate authHeader now _ _ =>
    (step m db c).1 ≠ .panic ∧
    (accepted (step m db c).1 = true ↔ ∃ k ∈ db.apiKeys, Carries m authHeader k ∧ Live now k) ∧
    ∀ identity, (step m db c).1 = .passed identity →
      ∃ k ∈ db.apiKeys, Carries m authHeader k ∧ Live now k ∧ identity = k.identity
  | _ => True

/-- Fewer than five bytes follow the mark of a key. -/
def Short (authHeader : Bytes) : Prop :=
  (ascii "Bearer cb_").isPrefixOf authHeader = true ∧ authHeader.length < 15

/-- The database is there, no header is short, and no statement fails that would find a key to
accept or mark one as expired. -/
def Guarded (db : Database) (c : Call) : Prop :=
  match c.request with
  | .authenticate authHeader now _ writeFault =>
    m.ready = true ∧ ¬ Short authHeader ∧
    (c.fault = true → ∀ k ∈ db.apiKeys, Carries m authHeader k → k.status ≠ "active") ∧
    (writeFault = true → ∀ k ∈ db.apiKeys, Carries m authHeader k → k.status = "active" →
      expired now k = false)
  | _ => True

/-- A key is revoked or found expired by a request, or was so before. -/
def Ended (c : Call) (k : APIKey) : Prop :=
  k.status ≠ "active" ∨
  match c.request with
  | .revokeKey tenantID id => m.ready = true ∧ c.fault = false ∧ tenantID ≠ "" ∧
    tenantID = k.tenantID ∧ id = k.id
  | .authenticate authHeader now _ _ => Carries m authHeader k ∧ expired now k = true
  | _ => False

/-- The raw key that a request would issue. -/
def rawKey (c : Call) : Option Bytes :=
  match c.request with
  | .createKey _ _ draw _ => draw.map generateAPIKey
  | _ => none

/-- A write that keeps a row's keys and makes no key active. -/
structure Keeps (f : APIKey → APIKey) : Prop where
  id : ∀ k, (f k).id = k.id
  keyPrefix : ∀ k, (f k).keyPrefix = k.keyPrefix
  keyHash : ∀ k, (f k).keyHash = k.keyHash
  status : ∀ k, (f k).status = "active" → k.status = "active"

theorem keeps_setStatus {status : String} (h : status ≠ "active") : Keeps (.setStatus status) :=
  ⟨fun _ => rfl, fun _ => rfl, fun _ => rfl, fun _ hs => absurd hs h⟩

theorem keeps_setLastUsed (now : Time) : Keeps (.setLastUsed now) :=
  ⟨fun _ => rfl, fun _ => rfl, fun _ => rfl, fun _ hs => hs⟩

theorem keeps_edit (name role scopes : String) : Keeps (.edit name role scopes) :=
  ⟨fun _ => rfl, fun _ => rfl, fun _ => rfl, fun _ hs => hs⟩

/-- The rows are rewritten, and keep their keys. -/
def Rewrites (db db' : Database) : Prop :=
  ∃ p f, Keeps f ∧ db'.apiKeys = updateWhere p f db.apiKeys

/-- A row is added for the key that a request issues. -/
def Issues (c : Call) (db db' : Database) : Prop :=
  ∃ draw k, rawKey c = some (generateAPIKey draw) ∧
    k.keyPrefix = (generateAPIKey draw).take 8 ∧ k.keyHash = hashAPIKey m (generateAPIKey draw) ∧
    (∀ q ∈ db.apiKeys, q.id ≠ k.id) ∧ db'.apiKeys = db.apiKeys ++ [k]

variable {m} {db : Database}

theorem rewrites_refl (db : Database) : Rewrites db db :=
  ⟨fun _ => false, id, ⟨fun _ => rfl, fun _ => rfl, fun _ => rfl, fun _ hs => hs⟩,
    (updateWhere_eq_self.mpr fun _ _ _ => rfl).symm⟩

theorem rewrites_update {p : APIKey → Bool} {f : APIKey → APIKey} (hf : Keeps f)
    (hid : ∀ k, (f k).id = k.id) : Rewrites db (db.update p f hid) :=
  ⟨p, f, hf, rfl⟩

theorem guarded_keeps {P : Database → Prop} {tenantID : String} {handler : Reply × Database}
    (hdb : P db) (hhandler : P handler.2) : P (guarded m tenantID db handler).2 := by
  unfold guarded
  split_ifs
  · exact hdb
  · exact hdb
  · exact hhandler

theorem createKey_cases (tenantID : String) (body : Option CreateBody) (draw : Option Draw)
    (newID : String) (fault : Bool) :
    let c : Call := { request := .createKey tenantID body draw newID, fault }
    Rewrites db (step m db c).2 ∨ Issues m c db (step m db c).2 := by
  refine guarded_keeps (P := fun db' => Rewrites db db' ∨ Issues m _ db db')
    (.inl (rewrites_refl db)) ?_
  cases body with
  | none => exact .inl (rewrites_refl db)
  | some body =>
    by_cases hname : body.name = ""
    · simp only [if_pos hname]
      exact .inl (rewrites_refl db)
    simp only [if_neg hname]
    cases draw with
    | none => exact .inl (rewrites_refl db)
    | some draw =>
      cases fault with
      | true => exact .inl (rewrites_refl db)
      | false =>
        by_cases hnew : ∀ q ∈ db.apiKeys, q.id ≠ newID
        · refine .inr ⟨draw, newKey m tenantID newID body (generateAPIKey draw), rfl, rfl, rfl,
            hnew, ?_⟩
          have hinsert : db.insert (newKey m tenantID newID body (generateAPIKey draw)) =
              some ⟨_, nodup_append db.apiKeys_nodup hnew⟩ := dif_pos hnew
          simp only [Bool.false_eq_true, if_false, hinsert]
        · have hinsert : db.insert (newKey m tenantID newID body (generateAPIKey draw)) = none :=
            dif_neg hnew
          simp only [Bool.false_eq_true, if_false, hinsert]
          exact .inl (rewrites_refl db)

theorem authenticate_rewrites (authHeader : Bytes) (now dbNow : Time) (fault writeFault : Bool) :
    Rewrites db (authenticate m authHeader now dbNow fault writeFault db).2 := by
  unfold authenticate
  by_cases hready : (!m.ready) = true
  · rw [if_pos hready]
    exact rewrites_refl db
  rw [if_neg hready]
  by_cases hmark : (!(ascii "Bearer cb_").isPrefixOf authHeader) = true
  · rw [if_pos hmark]
    exact rewrites_refl db
  rw [if_neg hmark]
  by_cases hshort : (authHeader.drop 7).length < 8
  · simp only [if_pos hshort]
    exact rewrites_refl db
  simp only [if_neg hshort]
  cases if fault then none else db.select ((authHeader.drop 7).take 8)
      (hashAPIKey m (authHeader.drop 7)) with
  | none => exact rewrites_refl db
  | some k =>
    by_cases hexpired : expired now k = true
    · simp only [if_pos hexpired]
      split_ifs
      · exact rewrites_refl db
      · exact rewrites_update (keeps_setStatus (by decide)) (APIKey.setStatus_id "expired")
    · simp only [if_neg hexpired]
      split_ifs
      · exact rewrites_refl db
      · exact rewrites_update (keeps_setLastUsed dbNow) (APIKey.setLastUsed_id dbNow)

/-- All that a request can do to the rows. -/
theorem step_cases (m : APIKeyManager) (db : Database) (c : Call) :
    Rewrites db (step m db c).2 ∨ Issues m c db (step m db c).2 := by
  obtain ⟨request, fault⟩ := c
  cases request with
  | createKey tenantID body draw newID => exact createKey_cases tenantID body draw newID fault
  | revokeKey tenantID id =>
    refine .inl (guarded_keeps (P := Rewrites db) (rewrites_refl db) ?_)
    cases fault with
    | true => exact rewrites_refl db
    | false => exact rewrites_update (keeps_setStatus (by decide)) (APIKey.setStatus_id "revoked")
  | updateKey tenantID id body =>
    refine .inl (guarded_keeps (P := Rewrites db) (rewrites_refl db) ?_)
    cases body with
    | error e => exact rewrites_refl db
    | ok body =>
      cases fault with
      | true => exact rewrites_refl db
      | false => exact rewrites_update (keeps_edit _ _ _) (APIKey.edit_id _ _ _)
  | authenticate authHeader now dbNow writeFault =>
    exact .inl (authenticate_rewrites authHeader now dbNow fault writeFault)

/-- Every row is of a key that was generated, no two of the same, and none of one still to come. -/
structure Inv (m : APIKeyManager) (db : Database) (rest : List Call) : Prop where
  keyed : ∀ k ∈ db.apiKeys, ∃ draw, k.keyPrefix = (generateAPIKey draw).take 8 ∧
    k.keyHash = hashAPIKey m (generateAPIKey draw)
  distinct : (db.apiKeys.map APIKey.keyHash).Nodup
  fresh : ∀ raw ∈ rest.filterMap rawKey, ∀ k ∈ db.apiKeys, k.keyHash ≠ hashAPIKey m raw
  nodup : (rest.filterMap rawKey).Nodup

variable (hsha : Function.Injective m.sha256Hex)

theorem inv_rewrites {db' : Database} {rest : List Call} (hdb : Inv m db rest)
    (h : Rewrites db db') : Inv m db' rest := by
  obtain ⟨p, f, hf, hrows⟩ := h
  have hmem : ∀ k' ∈ db'.apiKeys, ∃ k ∈ db.apiKeys, k'.keyPrefix = k.keyPrefix ∧
      k'.keyHash = k.keyHash := by
    intro k' hk'
    rw [hrows] at hk'
    obtain ⟨k, hk, rfl⟩ := List.mem_map.mp hk'
    exact ⟨k, hk, key_cond hf.keyPrefix k, key_cond hf.keyHash k⟩
  refine ⟨fun k' hk' => ?_, ?_, fun raw hraw k' hk' => ?_, hdb.nodup⟩
  · obtain ⟨k, hk, hfront, hhash⟩ := hmem k' hk'
    rw [hfront, hhash]
    exact hdb.keyed k hk
  · rw [hrows]
    exact nodup_updateWhere hf.keyHash hdb.distinct
  · obtain ⟨k, hk, -, hhash⟩ := hmem k' hk'
    rw [hhash]
    exact hdb.fresh raw hraw k hk

include hsha in
theorem inv_step {c : Call} {rest : List Call} (hdb : Inv m db (c :: rest)) :
    Inv m (step m db c).2 rest := by
  have hrest : Inv m db rest := by
    refine ⟨hdb.keyed, hdb.distinct, fun raw hraw => hdb.fresh raw ?_, ?_⟩
    · rw [List.filterMap_cons]
      split
      · exact hraw
      · exact List.mem_cons_of_mem _ hraw
    · exact hdb.nodup.sublist ((List.sublist_cons_self c rest).filterMap rawKey)
  obtain hrewrites | ⟨draw, k, hraw, hfront, hhash, -, hrows⟩ := step_cases m db c
  · exact inv_rewrites hrest hrewrites
  · have hnow : (c :: rest).filterMap rawKey = generateAPIKey draw :: rest.filterMap rawKey :=
      List.filterMap_cons_some hraw
    refine ⟨fun q hq => ?_, ?_, fun raw hraw' q hq => ?_, hrest.nodup⟩
    · rw [hrows, List.mem_append, List.mem_singleton] at hq
      obtain hq | rfl := hq
      · exact hdb.keyed q hq
      · exact ⟨draw, hfront, hhash⟩
    · rw [hrows]
      refine nodup_append hdb.distinct fun q hq => ?_
      rw [hhash]
      exact hdb.fresh _ (hnow ▸ List.mem_cons_self) q hq
    · rw [hrows, List.mem_append, List.mem_singleton] at hq
      obtain hq | rfl := hq
      · exact hrest.fresh raw hraw' q hq
      · rw [hhash]
        intro hsame
        have hnodup := hdb.nodup
        rw [hnow, List.nodup_cons] at hnodup
        exact hnodup.1 (hsha hsame ▸ hraw')

theorem inv_empty {calls : List Call} (h : (calls.filterMap rawKey).Nodup) :
    Inv m Database.empty calls where
  keyed := fun _ hk => absurd hk List.not_mem_nil
  distinct := List.nodup_nil
  fresh := fun _ _ _ hk => absurd hk List.not_mem_nil
  nodup := h

include hsha in
theorem inv_after {pre rest : List Call} (hdb : Inv m db (pre ++ rest)) :
    Inv m (after (step m) db pre) rest := by
  induction pre generalizing db with
  | nil => exact hdb
  | cons c pre ih => exact ih (inv_step hsha hdb)

theorem length_generateAPIKey (draw : Draw) : (generateAPIKey draw).length = 67 := by
  have hhex : (hexString draw.val).toList = hexChars draw.val := String.toList_ofList
  rw [generateAPIKey, List.length_append, length_ascii, length_ascii, hhex, length_hexChars,
    draw.property]
  rfl

theorem drop_bearer (raw : Bytes) : (ascii "Bearer " ++ raw).drop 7 = raw := rfl

theorem bearer_of_mark {authHeader : Bytes}
    (h : (ascii "Bearer cb_").isPrefixOf authHeader = true) :
    authHeader = ascii "Bearer " ++ authHeader.drop 7 := by
  obtain ⟨rest, rfl⟩ := List.isPrefixOf_iff_prefix.mp h
  rfl

/-- The row found for a raw key carries it. -/
theorem carries_of_select {authHeader : Bytes} {k : APIKey}
    (hmark : (ascii "Bearer cb_").isPrefixOf authHeader = true)
    (h : db.select ((authHeader.drop 7).take 8) (hashAPIKey m (authHeader.drop 7)) = some k) :
    k ∈ db.apiKeys ∧ Carries m authHeader k ∧ k.status = "active" := by
  have hfound := List.find?_some h
  simp only [Bool.and_eq_true, decide_eq_true_eq] at hfound
  obtain ⟨⟨-, hhash⟩, hstatus⟩ := hfound
  exact ⟨List.mem_of_find?_eq_some h, ⟨_, bearer_of_mark hmark, hhash⟩, hstatus⟩

include hsha in
/-- A header that carries the key of a row has its mark and its length, and leads to that row. -/
theorem select_of_carries {authHeader : Bytes} {k : APIKey} {rest : List Call}
    (hdb : Inv m db rest) (hk : k ∈ db.apiKeys) (hcarries : Carries m authHeader k)
    (hstatus : k.status = "active") :
    (ascii "Bearer cb_").isPrefixOf authHeader = true ∧ ¬ (authHeader.drop 7).length < 8 ∧
      db.select ((authHeader.drop 7).take 8) (hashAPIKey m (authHeader.drop 7)) = some k := by
  obtain ⟨raw, rfl, hhash⟩ := hcarries
  obtain ⟨draw, hfront, hdraw⟩ := hdb.keyed k hk
  obtain rfl : raw = generateAPIKey draw := hsha (hhash.symm.trans hdraw)
  rw [drop_bearer]
  refine ⟨?_, by rw [length_generateAPIKey]; decide, ?_⟩
  · exact List.isPrefixOf_iff_prefix.mpr ⟨ascii (hexString draw.val), rfl⟩
  · cases hselect : db.select ((generateAPIKey draw).take 8)
        (hashAPIKey m (generateAPIKey draw)) with
    | none =>
      have hnone := List.find?_eq_none.mp hselect k hk
      simp [hfront, hdraw, hstatus] at hnone
    | some k' =>
      have hfound := List.find?_some hselect
      simp only [Bool.and_eq_true, decide_eq_true_eq] at hfound
      exact congrArg some (List.inj_on_of_nodup_map hdb.distinct (List.mem_of_find?_eq_some hselect)
        hk (hfound.1.2.trans hdraw.symm))

include hsha in
/-- What becomes of an attempt with the key of an active row, where the row is read. -/
theorem authenticate_carries {authHeader : Bytes} {k : APIKey} {rest : List Call}
    (hdb : Inv m db rest) (hready : m.ready = true) (hk : k ∈ db.apiKeys)
    (hcarries : Carries m authHeader k) (hstatus : k.status = "active") (now dbNow : Time)
    (writeFault : Bool) :
    authenticate m authHeader now dbNow false writeFault db =
      if expired now k then
        (.answer 401 "API key has expired", if writeFault then db else
          db.update (fun q => q.id = k.id) (.setStatus "expired") (APIKey.setStatus_id _))
      else
        (.passed k.identity, if writeFault then db else
          db.update (fun q => q.id = k.id) (.setLastUsed dbNow) (APIKey.setLastUsed_id _)) := by
  obtain ⟨hmark, hlength, hselect⟩ := select_of_carries hsha hdb hk hcarries hstatus
  simp only [authenticate, hready, hmark, hlength, hselect, Bool.not_true, Bool.false_eq_true,
    if_false]

/-- What becomes of any other attempt that is not short. -/
theorem authenticate_other {authHeader : Bytes} (hready : m.ready = true)
    (hshort : ¬ Short authHeader) (now dbNow : Time) (fault writeFault : Bool)
    (hnone : fault = false → ∀ k ∈ db.apiKeys, Carries m authHeader k → k.status ≠ "active") :
    ∃ message, authenticate m authHeader now dbNow fault writeFault db =
      (.answer 401 message, db) := by
  unfold authenticate
  rw [hready]
  by_cases hmark : (ascii "Bearer cb_").isPrefixOf authHeader = true
  · have hlength : ¬ (authHeader.drop 7).length < 8 := fun h =>
      hshort ⟨hmark, by rw [List.length_drop] at h; omega⟩
    simp only [hmark, hlength, Bool.not_true, Bool.false_eq_true, if_false]
    cases fault with
    | true => exact ⟨_, rfl⟩
    | false =>
      simp only [Bool.false_eq_true, if_false]
      cases hselect : db.select ((authHeader.drop 7).take 8)
          (hashAPIKey m (authHeader.drop 7)) with
      | none => exact ⟨_, rfl⟩
      | some k =>
        obtain ⟨hk, hcarries, hstatus⟩ := carries_of_select hmark hselect
        exact absurd hstatus (hnone rfl k hk hcarries)
  · simp only [hmark, Bool.not_true, Bool.not_false, Bool.false_eq_true, if_false, if_true]
    exact ⟨_, rfl⟩

include hsha in
/-- Guarded attempts are faithful. -/
theorem faithful_of_guarded {c : Call} {rest : List Call} (hdb : Inv m db rest)
    (hguarded : Guarded m db c) : Faithful m db c := by
  obtain ⟨request, fault⟩ := c
  cases request with
  | createKey _ _ _ _ | revokeKey _ _ | updateKey _ _ _ => trivial
  | authenticate authHeader now dbNow writeFault =>
    obtain ⟨hready, hshort, hread, -⟩ := hguarded
    by_cases hsome : ∃ k ∈ db.apiKeys, Carries m authHeader k ∧ k.status = "active"
    · obtain ⟨k, hk, hcarries, hstatus⟩ := hsome
      have hfault : fault = false :=
        Bool.eq_false_iff.mpr fun h => hread h k hk hcarries hstatus
      subst hfault
      have hspec := authenticate_carries hsha hdb hready hk hcarries hstatus now dbNow writeFault
      -- another row with this raw key would have the same digest
      have honly : ∀ q ∈ db.apiKeys, Carries m authHeader q → q = k := by
        rintro q hq ⟨raw, hraw, hqhash⟩
        obtain ⟨raw', hraw', hkhash⟩ := hcarries
        have hsame : raw = raw' := List.append_cancel_left (hraw.symm.trans hraw')
        exact List.inj_on_of_nodup_map hdb.distinct hq hk
          (hqhash.trans ((congrArg _ hsame).trans hkhash.symm))
      by_cases hexpired : expired now k = true
      · rw [if_pos hexpired] at hspec
        simp only [Faithful, step, hspec]
        refine ⟨nofun, iff_of_false nofun ?_, nofun⟩
        rintro ⟨q, hq, hqcarries, -, hqlive⟩
        rw [honly q hq hqcarries, hexpired] at hqlive
        cases hqlive
      · have hlive : Live now k := ⟨hstatus, Bool.eq_false_iff.mpr hexpired⟩
        rw [if_neg hexpired] at hspec
        simp only [Faithful, step, hspec]
        refine ⟨nofun, iff_of_true rfl ⟨k, hk, hcarries, hlive⟩, ?_⟩
        rintro _ ⟨⟩
        exact ⟨k, hk, hcarries, hlive, rfl⟩
    · have hnone : ∀ k ∈ db.apiKeys, Carries m authHeader k → k.status ≠ "active" :=
        fun k hk hcarries hstatus => hsome ⟨k, hk, hcarries, hstatus⟩
      obtain ⟨message, hspec⟩ := authenticate_other hready hshort now dbNow fault writeFault
        fun _ => hnone
      simp only [Faithful, step, hspec]
      refine ⟨nofun, iff_of_false nofun ?_, nofun⟩
      rintro ⟨k, hk, hcarries, hstatus, -⟩
      exact hnone k hk hcarries hstatus

/-- The key of this id is there, and not active. -/
def Dead (db : Database) (id : String) : Prop :=
  (∃ k ∈ db.apiKeys, k.id = id) ∧ ∀ k ∈ db.apiKeys, k.id = id → k.status ≠ "active"

/-- What is not active stays so. -/
theorem dead_step {id : String} (h : Dead db id) (c : Call) : Dead (step m db c).2 id := by
  obtain ⟨⟨k, hk, hid⟩, hdead⟩ := h
  obtain ⟨p, f, hf, hrows⟩ | ⟨draw, q, -, -, -, hnew, hrows⟩ := step_cases m db c
  · rw [Dead, hrows]
    refine ⟨⟨_, List.mem_map.mpr ⟨k, hk, rfl⟩, (key_cond hf.id k).trans hid⟩, fun k' hk' hid' => ?_⟩
    obtain ⟨k, hk, rfl⟩ := List.mem_map.mp hk'
    have hstatus := hdead k hk ((key_cond hf.id k).symm.trans hid')
    split
    · exact fun h => hstatus (hf.status k h)
    · exact hstatus
  · rw [Dead, hrows]
    refine ⟨⟨k, List.mem_append_left _ hk, hid⟩, fun k' hk' hid' => ?_⟩
    rw [List.mem_append, List.mem_singleton] at hk'
    obtain hk' | rfl := hk'
    · exact hdead k' hk' hid'
    · exact absurd (hid.trans hid'.symm) (hnew k hk)

theorem dead_after {id : String} (h : Dead db id) (calls : List Call) :
    Dead (after (step m) db calls) id := by
  induction calls generalizing db with
  | nil => exact h
  | cons c calls ih => exact ih (dead_step h c)

theorem guarded_not_passed {tenantID : String} {handler : Reply × Database} {identity : Identity}
    (h : handler.1 ≠ .passed identity) : (guarded m tenantID db handler).1 ≠ .passed identity := by
  unfold guarded
  split_ifs
  · exact nofun
  · exact nofun
  · exact h

theorem createKey_not_passed (tenantID : String) (body : Option CreateBody) (draw : Option Draw)
    (newID : String) (fault : Bool) (identity : Identity) :
    (createKey m tenantID body draw newID fault db).1 ≠ .passed identity := by
  refine guarded_not_passed ?_
  cases body with
  | none => exact nofun
  | some body =>
    by_cases hname : body.name = ""
    · simp only [if_pos hname]
      exact nofun
    simp only [if_neg hname]
    cases draw with
    | none => exact nofun
    | some draw =>
      simp only
      split
      · exact nofun
      · exact nofun

/-- Only an active key is accepted. -/
theorem not_dead_of_authenticate {authHeader : Bytes} {now dbNow : Time} {fault writeFault : Bool}
    {identity : Identity}
    (h : (authenticate m authHeader now dbNow fault writeFault db).1 = .passed identity) :
    ¬ Dead db identity.userID := by
  unfold authenticate at h
  by_cases hready : (!m.ready) = true
  · rw [if_pos hready] at h
    cases h
  rw [if_neg hready] at h
  by_cases hmark : (!(ascii "Bearer cb_").isPrefixOf authHeader) = true
  · rw [if_pos hmark] at h
    cases h
  rw [if_neg hmark] at h
  by_cases hshort : (authHeader.drop 7).length < 8
  · simp only [if_pos hshort] at h
    cases h
  simp only [if_neg hshort] at h
  cases fault with
  | true => cases h
  | false =>
    simp only [Bool.false_eq_true, if_false] at h
    cases hselect : db.select ((authHeader.drop 7).take 8) (hashAPIKey m (authHeader.drop 7)) with
    | none =>
      rw [hselect] at h
      cases h
    | some k =>
      obtain ⟨hk, -, hstatus⟩ := carries_of_select (by simpa using hmark) hselect
      simp only [hselect] at h
      by_cases hexpired : expired now k = true
      · rw [if_pos hexpired] at h
        cases h
      · rw [if_neg hexpired] at h
        obtain rfl : k.identity = identity := Reply.passed.inj h
        exact fun hdead => hdead.2 k hk rfl hstatus

theorem not_dead_of_passed {c : Call} {identity : Identity}
    (h : (step m db c).1 = .passed identity) : ¬ Dead db identity.userID := by
  obtain ⟨request, fault⟩ := c
  cases request with
  | createKey tenantID body draw newID =>
    exact absurd h (createKey_not_passed tenantID body draw newID fault identity)
  | revokeKey tenantID id =>
    refine absurd h (guarded_not_passed ?_)
    cases fault <;> exact nofun
  | updateKey tenantID id body =>
    refine absurd h (guarded_not_passed ?_)
    cases body with
    | error e => exact nofun
    | ok body => cases fault <;> exact nofun
  | authenticate authHeader now dbNow writeFault => exact not_dead_of_authenticate h

theorem dead_update {k : APIKey} {p : APIKey → Bool} {status : String} (hk : k ∈ db.apiKeys)
    (hp : p k = true) (hstatus : status ≠ "active") :
    Dead (db.update p (.setStatus status) (APIKey.setStatus_id _)) k.id := by
  refine ⟨⟨_, List.mem_map.mpr ⟨k, hk, rfl⟩, key_cond (APIKey.setStatus_id _) k⟩, ?_⟩
  intro k' hk' hid
  obtain ⟨q, hq, rfl⟩ := List.mem_map.mp hk'
  have hqid : q.id = k.id := (key_cond (APIKey.setStatus_id _) q).symm.trans hid
  obtain rfl : q = k := List.inj_on_of_nodup_map db.apiKeys_nodup hq hk hqid
  rw [if_pos hp]
  exact hstatus

include hsha in
/-- After a guarded request that ends a key, the key is not active. -/
theorem dead_of_ended {c : Call} {rest : List Call} {k : APIKey} (hdb : Inv m db rest)
    (hguarded : Guarded m db c) (hk : k ∈ db.apiKeys) (hended : Ended m c k) :
    Dead (step m db c).2 k.id := by
  by_cases hstatus : k.status = "active"
  · have hended := hended.resolve_left (not_not.mpr hstatus)
    obtain ⟨request, fault⟩ := c
    cases request with
    | createKey _ _ _ _ | updateKey _ _ _ => exact hended.elim
    | revokeKey tenantID id =>
      obtain ⟨hready, rfl, htenant, rfl, rfl⟩ := hended
      simp only [step, revokeKey, guarded, hready, Bool.not_true, Bool.false_eq_true, if_false,
        if_neg htenant]
      exact dead_update hk (by simp) (by decide)
    | authenticate authHeader now dbNow writeFault =>
      obtain ⟨hcarries, hexpired⟩ := hended
      obtain ⟨hready, hshort, hread, hwrite⟩ := hguarded
      have hfault : fault = false :=
        Bool.eq_false_iff.mpr fun h => hread h k hk hcarries hstatus
      have hwriteFault : writeFault = false := Bool.eq_false_iff.mpr fun h => by
        rw [hwrite h k hk hcarries hstatus] at hexpired
        cases hexpired
      subst hfault hwriteFault
      simp only [step, authenticate_carries hsha hdb hready hk hcarries hstatus, hexpired, if_true,
        Bool.false_eq_true, if_false]
      exact dead_update hk (by simp) (by decide)
  · refine dead_step ⟨⟨k, hk, rfl⟩, fun q hq hid => ?_⟩ c
    rwa [List.inj_on_of_nodup_map db.apiKeys_nodup hq hk hid]

/-- In every run whose attempts are guarded, each attempt is faithful, and a key that is revoked or
found expired is never accepted again. -/
theorem key_lifecycle (m : APIKeyManager) (hsha : Function.Injective m.sha256Hex)
    (calls : List Call) (hfresh : (calls.filterMap rawKey).Nodup)
    (hguarded : Along (step m) (Guarded m) Database.empty calls) :
    Along (step m) (Faithful m) Database.empty calls ∧
    ∀ earlier c between d later, calls = earlier ++ c :: (between ++ d :: later) →
      ∀ k ∈ (after (step m) Database.empty earlier).apiKeys, Ended m c k →
      ∀ identity, (step m (after (step m) Database.empty (earlier ++ c :: between)) d).1 =
        .passed identity → identity.userID ≠ k.id := by
  constructor
  · have hall : ∀ (calls : List Call) (db : Database), Inv m db calls →
        Along (step m) (Guarded m) db calls → Along (step m) (Faithful m) db calls := by
      intro calls
      induction calls with
      | nil => exact fun _ _ _ => trivial
      | cons c calls ih =>
        intro db hdb hg
        exact ⟨faithful_of_guarded hsha hdb hg.1, ih _ (inv_step hsha hdb) hg.2⟩
    exact hall calls Database.empty (inv_empty hfresh) hguarded
  · intro earlier c between d later hcalls k hk hended identity hpassed hid
    subst hcalls
    have hdb := inv_after hsha (inv_empty (m := m) hfresh)
    obtain ⟨hg, -⟩ := ((along_append (step m) _ earlier _).mp hguarded).2
    have hdead := dead_after (m := m) (dead_of_ended hsha hdb hg hk hended) between
    rw [after_append] at hpassed
    exact not_dead_of_passed hpassed (hid ▸ hdead)

/-- A digest that only marks its input. -/
def sampleHash (key : Bytes) : String := String.ofList (key.map fun b => Char.ofNat b.toNat)

theorem sampleHash_injective : Function.Injective sampleHash := fun _ _ h =>
  List.map_injective_iff.mpr ofNat_injective (String.ofList_injective h)

def manager : APIKeyManager := { ready := true, sha256Hex := sampleHash }

def zeros : Draw := ⟨List.replicate 32 0, rfl⟩

/-- A key is issued, presented, revoked and presented again. -/
def issuedAndRevoked : List Call :=
  [{ request := .createKey "tenant-1" (some ⟨"ci", "", [], none⟩) (some zeros) "key-1" },
    { request := .authenticate (ascii "Bearer " ++ generateAPIKey zeros) 1 1 false },
    { request := .revokeKey "tenant-1" "key-1" },
    { request := .authenticate (ascii "Bearer " ++ generateAPIKey zeros) 2 2 false }]

theorem guarded_attempt {db : Database} {authHeader : Bytes} (now dbNow : Time)
    (hshort : ¬ Short authHeader) :
    Guarded manager db { request := .authenticate authHeader now dbNow false } :=
  ⟨rfl, hshort, nofun, nofun⟩

theorem key_lifecycle_revoked : Function.Injective manager.sha256Hex ∧
    (issuedAndRevoked.filterMap rawKey).Nodup ∧
    Along (step manager) (Guarded manager) Database.empty issuedAndRevoked ∧
    Along (step manager) (Faithful manager) Database.empty issuedAndRevoked :=
  have hshort : ¬ Short (ascii "Bearer " ++ generateAPIKey zeros) :=
    fun h => absurd h.2 (by decide)
  have hguarded : Along (step manager) (Guarded manager) Database.empty issuedAndRevoked :=
    ⟨trivial, guarded_attempt 1 1 hshort, trivial, guarded_attempt 2 2 hshort, trivial⟩
  ⟨sampleHash_injective, List.nodup_singleton _, hguarded,
    (key_lifecycle manager sampleHash_injective issuedAndRevoked (List.nodup_singleton _)
      hguarded).1⟩

/-- A header that ends after the mark of a key makes the middleware panic. -/
theorem mark_panics : ¬ ∀ (m : APIKeyManager) (calls : List Call),
    Function.Injective m.sha256Hex → (calls.filterMap rawKey).Nodup →
    Along (step m) (Faithful m) Database.empty calls := by
  intro h
  obtain ⟨⟨hanswers, -⟩, -⟩ := h manager
    [{ request := .authenticate (ascii "Bearer cb_") 1 1 false }] sampleHash_injective .nil
  exact hanswers (by decide)

end RivicQ.Properties.APIKeys
