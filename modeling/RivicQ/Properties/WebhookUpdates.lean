import Mathlib.Data.List.Forall2
import RivicQ.Enterprise.WebhookUpdates

namespace RivicQ.Properties.WebhookUpdates

open RivicQ.Lib.GoStrings RivicQ.Lib.Statements RivicQ.Enterprise.WebhookUpdates

section Analysis

variable {cm : CaseMap} {quote : String → String} {db : EnterpriseDB} {tenantID id : String}
  {body : Except String Json} {rows : List Row}

theorem columns_of_sets : webhookColumns "name" = some (.varchar 255) ∧
    webhookColumns "url" = some (.varchar 1024) ∧ webhookColumns "events" = some .jsonb := by
  decide

/-- The server does not take the new events, which are a text, for a column of type `jsonb`. -/
theorem analyze_updateStatement : updateStatement.analyze webhookColumns =
    .error "column \"events\" is of type jsonb but expression is of type text" := by
  obtain ⟨hname, hurl, hevents⟩ := columns_of_sets
  have hkept : typeOf webhookColumns (.cast (.column "events") .text) = some (some .text) := by
    rw [typeOf, typeOf_column hevents]
    rfl
  have hnameSet := checkSet_of_types hname
    (typeOf_coalesce_nullif (n := 1) (typeOf_column hname) rfl)
  have hurlSet := checkSet_of_types hurl
    (typeOf_coalesce_nullif (n := 2) (typeOf_column hurl) rfl)
  have heventsSet := checkSet_of_types hevents (typeOf_coalesce_nullif (n := 3) hkept rfl)
  simp only [Update.analyze, updateStatement, List.forM_eq_forM, List.forM_cons, hnameSet, hurlSet,
    heventsSet]
  rfl

/-- So no update gets through. -/
theorem updateWebhook_rows (hcolumns : db.columns = webhookColumns) :
    (updateWebhook cm quote db tenantID id body rows).2 = rows := by
  unfold updateWebhook
  rw [hcolumns]
  split_ifs
  · rfl
  · rfl
  · cases bindBody cm body with
    | error err => rfl
    | ok req =>
      dsimp only
      rw [run_error analyze_updateStatement]

end Analysis

section Omissions

/-- The body has no member that sets a field. -/
def Omits (cm : CaseMap) (body : Except String Json) (field : String) : Prop :=
  ∀ members, body = .ok (.object members) → ∀ m ∈ members, equalFold cm m.1 field = false

/-- The columns of the omitted fields are as they were. -/
structure Kept (cm : CaseMap) (body : Except String Json) (r r' : Row) : Prop where
  id : r' "id" = r "id"
  name : Omits cm body "name" → r' "name" = r "name"
  url : Omits cm body "url" → r' "url" = r "url"
  events : Omits cm body "events" → r' "events" = r "events"

/-- An update keeps what its body omits, and one that does not mention the events leaves each event
to the webhooks that had it. -/
theorem omitted_kept (cm : CaseMap) (quote : String → String) (codec : Codec) (ready : Bool)
    (tenantID id : String) (body : Except String Json) (rows : List Row) :
    List.Forall₂ (Kept cm body) rows
      (updateWebhook cm quote ⟨ready, webhookColumns, codec⟩ tenantID id body rows).2 ∧
    (Omits cm body "events" → ∀ tenant eventType,
      List.Forall₂ (fun r r' => selects ⟨ready, webhookColumns, codec⟩ tenant eventType r' =
          selects ⟨ready, webhookColumns, codec⟩ tenant eventType r) rows
        (updateWebhook cm quote ⟨ready, webhookColumns, codec⟩ tenantID id body rows).2 ∧
      (dispatchEvent ⟨ready, webhookColumns, codec⟩ tenant eventType
          (updateWebhook cm quote ⟨ready, webhookColumns, codec⟩ tenantID id body rows).2).map
          (fun r => r "id") =
        (dispatchEvent ⟨ready, webhookColumns, codec⟩ tenant eventType rows).map
          (fun r => r "id")) := by
  rw [updateWebhook_rows rfl]
  have hkept : ∀ r, Kept cm body r r := fun r => ⟨rfl, fun _ => rfl, fun _ => rfl, fun _ => rfl⟩
  refine ⟨List.forall₂_same.mpr fun r _ => hkept r, fun _ tenant eventType => ⟨?_, rfl⟩⟩
  exact List.forall₂_same.mpr fun _ _ => rfl

end Omissions

section Texts

variable {cm : CaseMap} {quote : String → String} {c : Codec} {columns : Columns}
  {p : Nat → String} {req req' : UpdateBody} {body : Except String Json} {r r' : Row}
  {m : String × Json} {members : List (String × Json)} {tenantID id : String}

theorem decodeMember_events (hm : equalFold cm m.1 "events" = false)
    (h : decodeMember cm req m = .ok req') : req'.events = req.events := by
  have hset : ∀ (d : Except String String) (f : String → UpdateBody),
      (∀ s, (f s).events = req.events) → d.map f = .ok req' → req'.events = req.events := by
    intro d f hf hd
    cases d with
    | error err => cases hd
    | ok s =>
      rw [← Except.ok.inj hd]
      exact hf s
  unfold decodeMember at h
  split_ifs at h with hname hurl hevents
  · exact hset _ (fun s => { req with name := s }) (fun _ => rfl) h
  · exact hset _ (fun s => { req with url := s }) (fun _ => rfl) h
  · rw [hm] at hevents
    cases hevents
  · rw [Except.ok.inj h]

/-- A body that does not mention the events leaves the list nil. -/
theorem bindBody_events (homits : Omits cm body "events") (h : bindBody cm body = .ok req) :
    req.events = none := by
  have hfold : ∀ (members : List (String × Json)) (req₀ : UpdateBody),
      (∀ m ∈ members, equalFold cm m.1 "events" = false) →
      members.foldlM (decodeMember cm) req₀ = .ok req → req.events = req₀.events := by
    intro members
    induction members with
    | nil =>
      intro req₀ _ hfold
      exact congrArg UpdateBody.events (Except.ok.inj hfold).symm
    | cons m members ih =>
      intro req₀ hmembers hfold
      obtain ⟨hm, hrest⟩ := List.forall_mem_cons.mp hmembers
      rw [List.foldlM_cons] at hfold
      cases hstep : decodeMember cm req₀ m with
      | error err =>
        rw [hstep] at hfold
        cases hfold
      | ok req₁ =>
        rw [hstep] at hfold
        exact (ih req₁ hrest hfold).trans (decodeMember_events hm hstep)
  cases body with
  | error err => cases h
  | ok value =>
    cases value with
    | null => exact congrArg UpdateBody.events (Except.ok.inj h).symm
    | object members => exact hfold members {} (homits members rfl) h
    | bool b => cases h
    | number n => cases h
    | string s => cases h
    | array es => cases h

theorem assign_events (hevents : columns "events" = some .text) (hp : p 3 ≠ "")
    (h : assign c columns p r updateStatement.sets r = some r') :
    r' "events" = some (.text (p 3)) := by
  have hkept : typeOf columns (.cast (.column "events") .text) = some (some .text) := by
    rw [typeOf, typeOf_column hevents]
    rfl
  simp only [updateStatement, assign, Option.bind_eq_bind, Option.bind_eq_some_iff] at h
  -- The events are set last.
  obtain ⟨_, -, _, -, _, -, _, -, _, -, _, -, t, ht, v, hv, w, hw, hr⟩ := h
  rw [hevents, Option.some.injEq] at ht
  rw [eval_coalesce_nullif hkept rfl, if_neg hp, Option.some.injEq] at hv
  rw [← ht, ← hv] at hw
  rw [← Option.some.inj hr, ← Option.some.inj hw, Function.update_self]
  rfl

/-- Were the column of type `text`, an update that does not mention the events would leave `null`
there, which has no event. -/
theorem null_in_text_column (hevents : columns "events" = some .text)
    (homits : Omits cm body "events") (hbody : bindBody cm body = .ok req)
    (h : assign c columns (params quote req id tenantID) r updateStatement.sets r = some r') :
    r' "events" = some (.text "null") := by
  have hnull : params quote req id tenantID 3 = "null" :=
    congrArg (marshalEvents quote) (bindBody_events homits hbody)
  rw [assign_events hevents (by rw [hnull]; decide) h, hnull]

end Texts

end RivicQ.Properties.WebhookUpdates
