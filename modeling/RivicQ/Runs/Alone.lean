import RivicQ.Runs.Conduct

namespace RivicQ.Runs.Alone

open RivicQ.Lib.GoStrings RivicQ.Lib.Programs RivicQ.Lib.Disciplines
open RivicQ.Authn.Types RivicQ.Authn.Records RivicQ.Authn.Environment RivicQ.Authn.Operations
open RivicQ.Authn.Worlds RivicQ.Authn.Rules RivicQ.Runs.Calls RivicQ.Runs.Conduct

variable {α β : Type} {env : Env} {cfg : Config} {w : World}

section Generic

variable {D : Discipline (handle env)} {Special : Kind → Prop}

theorem guarded_alone_pure {Post : Except Err β → World → Prop} {r : Except Err β}
    (h : Post r w) : Guarded D.alone Post (.pure r) w :=
  guarded_pure.mpr fun w' hr _ => by cases hr; exact h

theorem delivers_alone_done {Post : β → World → Prop} {b : β} (h : Post b w) :
    Delivers D.alone Post (done b) w := delivers_done fun w' hr _ => by cases hr; exact h

theorem delivers_sign (u : User) (edition : Edition) (issuedAt : Time) :
    Delivers D.alone (fun _ w' => w'.ledger = w.ledger) (sign env cfg u edition issuedAt) w :=
  (guarded_local (by rfl)).mpr (guarded_alone_pure fun _ _ => rfl)

variable (hA : Admits D Special)
include hA

/-- Serving one store request, with what it does to the ledger. -/
theorem guarded_serve {Post : Except Err β → World → Prop} {o : StoreOp} {k : o.Reply → Prog β}
    (hw : D.Inv w) (hG : D.Guard w (.store o))
    (hk : ∀ r w', D.Inv w' → Onward w w' → w'.ticks = w.ticks + 2 →
      Step env.cases w.store.total w.ledger w'.ledger o r → Guarded D.alone Post (k r) w') :
    Guarded D.alone Post ((store o).bind k) w := by
  apply guarded_store
  · exact hG
  intro w' hr hw'
  cases hr
  have ha := hA.allowed hG
  exact hk _ _ hw' (sound_store (hA.sound hw) ha.1 ha.2).2 rfl (handle_store (hA.sound hw) o ha.1).2

/-- Asking for something outside the stores. -/
theorem guarded_ask {Post : Except Err β → World → Prop} {o : Op} (ho : ∀ o', o ≠ .store o')
    (hy : o.yields = true) {k : o.Reply → Prog β} (hw : D.Inv w)
    (hk : ∀ w', D.Inv w' → w'.store = w.store → Guarded D.alone Post (k (handle env o w).1) w') :
    Guarded D.alone Post (.request (o : Calls.Op) k) w := by
  have hG : D.Guard w o := by
    refine guard_plain hA hw ?_
    cases o with
    | store o' => exact absurd rfl (ho o')
    | _ => trivial
  refine (guarded_yield hy).mpr ⟨hG, fun w' hr hw' => ?_⟩
  cases hr
  exact hk _ hw' (@store_handle env o ho w).1

theorem guarded_serve_last {o : StoreOp} {Post : o.Reply → World → Prop} (hw : D.Inv w)
    (hG : D.Guard w (.store o))
    (hk : ∀ r w', D.Inv w' → Onward w w' →
      Step env.cases w.store.total w.ledger w'.ledger o r → Post r w') :
    Guarded D.alone Post (store o) w := by
  refine (guarded_yield (by rfl)).mpr ⟨hG, fun w' hr hw' => ?_⟩
  cases hr
  have ha := hA.allowed hG
  refine guarded_pure.mpr fun w'' hr _ => ?_
  cases hr
  exact hk _ _ hw' (sound_store (hA.sound hw) ha.1 ha.2).2 (handle_store (hA.sound hw) o ha.1).2

omit hA in
/-- Going on from what a program delivers. -/
theorem guarded_delivered {Post : α → World → Prop} {p : Prog α} {k : α → Prog β} (hw : D.Inv w)
    (hp : Delivers D.alone Post p w)
    (hk : ∀ a w', D.Inv w' → Post a w' → Guarded D.alone (fun _ _ => True) (k a) w') :
    Guarded D.alone (fun _ _ => True) (orReturn p k) w := by
  refine guarded_orReturn (D := D.alone) hw ?_
  refine guarded_mono (fun r w' hw' hr => ⟨fun e _ => ?_, fun a ha => ?_⟩) hp
  · exact guarded_alone_pure trivial
  · exact hk a w' hw' (hr a ha)

/-- What a raw token stands for when it is accepted. -/
structure Loads (env : Env) (raw : String) (purpose : TokenPurpose) (w : World) (tok : Token)
    (u : User) : Prop where
  token : w.ledger.token (trimSpace (hashToken env raw)) = some tok
  purpose : tok.purpose = purpose
  unused : tok.usedAt = none
  unexpired : ∃ n, w.ticks ≤ n ∧ env.clock n < tok.expiresAt
  owner : w.ledger.user tok.userID = some u

theorem delivers_loadToken (hw : D.Inv w) (raw : String) (purpose : TokenPurpose) :
    Delivers D.alone (fun t w' => w'.ledger = w.ledger ∧ w.ticks ≤ w'.ticks ∧
      Loads env raw purpose w t.1 t.2) (loadToken env raw purpose) w := by
  refine guarded_serve hA hw (guard_plain hA hw trivial) fun r w₁ hw₁ ho₁ ht₁ hs₁ => ?_
  cases r with
  | error e => exact delivers_fail _
  | ok tok =>
    have htok := hs₁.2 tok rfl
    simp only
    split
    · exact delivers_fail _
    rename_i hpurpose
    split
    · exact delivers_fail _
    rename_i hunused
    apply guarded_now
    split
    · exact delivers_fail _
    rename_i htime
    refine guarded_serve hA (inv_tick hw₁) (guard_plain hA (inv_tick hw₁) trivial)
      fun r w₂ hw₂ ho₂ ht₂ hs₂ => ?_
    cases r with
    | error e => exact delivers_fail _
    | ok u =>
      have hu := hs₂.2.1 u rfl
      have hl₁ : w₁.tick.ledger = w.ledger := hs₁.1
      refine delivers_alone_done ⟨hs₂.1.trans hl₁, ?_, ?_⟩
      · exact Nat.le_trans ho₁.ticks (Nat.le_trans (Nat.le_succ _) ho₂.ticks)
      · refine ⟨htok, not_not.mp hpurpose, not_not.mp hunused, ⟨w₁.ticks, ho₁.ticks, ?_⟩, ?_⟩
        · exact not_not.mp htime
        · rw [← hl₁]
          exact hu

theorem delivers_markTokenUsed (hw : D.Inv w) (hash : String)
    (hT : D.Guard w (.store (.markTokenUsed hash))) :
    Delivers D.alone (fun _ w' => w'.ledger.user = w.ledger.user ∧
      ∃ t, w'.ledger.token (trimSpace hash) = some t ∧ t.usedAt ≠ none)
      (store (.markTokenUsed hash)) w := by
  refine guarded_serve_last hA hw hT fun r w' _ _ hs a hr => ?_
  obtain ⟨he, _⟩ | ⟨_, t, now, ht, he⟩ := hs
  · rw [hr] at he
    cases he
  · rw [he]
    refine ⟨rfl, { t with usedAt := some now }, ?_, by simp⟩
    rw [← (hA.sound hw).keyed.token ht]
    exact if_pos rfl

theorem Loads.stored {raw : String} {purpose : TokenPurpose} {tok : Token} {u : User}
    (h : Loads env raw purpose w tok u) (hw : D.Inv w) : w.ledger.user u.id = some u := by
  rw [(hA.sound hw).keyed.user h.owner]
  exact h.owner

theorem delivers_consumeToken (hT : ¬ Special .token) (hw : D.Inv w) (raw : String)
    (purpose : TokenPurpose) :
    Delivers D.alone (fun u w' => w'.ledger.user = w.ledger.user ∧
      ∃ tok, Loads env raw purpose w tok u) (consumeToken env raw purpose) w := by
  refine delivers_orReturn (D := D.alone) hw ?_
  refine delivers_mono (fun t w₁ hw₁ hload _ => ?_) (delivers_loadToken hA hw raw purpose)
  obtain ⟨tok, u⟩ := t
  refine delivers_orReturn (D := D.alone) hw₁ ?_
  have hG := marksOwn_of_not_special hA hT raw w₁ tok.hash
    ((hA.sound hw).keyed.token hload.2.2.token) hw₁
  refine delivers_mono (fun _ w₂ _ hmark _ => ?_) (delivers_markTokenUsed hA hw₁ tok.hash hG)
  refine delivers_alone_done ⟨?_, tok, hload.2.2⟩
  rw [hmark.1, hload.1]

theorem delivers_issueSession (hf : Fresh env) (hw : D.Inv w) (u : User) (edition : Edition)
    (userAgent ip : String) : Delivers D.alone (fun pair w' => pair.user = publicUser u ∧
      w'.ledger.user = w.ledger.user ∧ w'.ledger.token = w.ledger.token)
      (issueSession env cfg u edition userAgent ip) w := by
  apply guarded_now
  apply guarded_newOpaqueToken
  · exact fun e => delivers_fail e
  intro raw hr
  apply guarded_newUUID
  have hw₁ := inv_tick (inv_tick (inv_tick hw))
  refine guarded_serve hA hw₁ (hA.guard (fun k hk => by cases hk) hw₁ ?_)
    fun r w' hw' ho _ hs => ?_
  · refine allowed_createSession hf (hA.sound hw) (by rfl) ?_ ?_ ?_ ?_ hr (by rfl) (by rfl) (by rfl)
    all_goals try simp only [World.tick]
    all_goals omega
  cases r with
  | error e => exact delivers_fail _
  | ok _ =>
    obtain ⟨he, _⟩ | ⟨_, he⟩ := hs
    · cases he
    refine delivers_orReturn (p := sign env cfg u edition _) hw' ?_
    refine delivers_mono (fun access w'' _ hl _ => ?_) (delivers_sign u edition _)
    refine delivers_alone_done ⟨rfl, ?_, ?_⟩
    · rw [hl, he]
      rfl
    · rw [hl, he]
      rfl

end Generic

/-- The conduct of a call beside which nothing runs. -/
abbrev alone (env : Env) : Discipline (handle env) := (conduct env).alone

theorem alone_admits : Admits (alone env) (fun _ => False) := admits_alone conduct_admits

theorem guarded_answering {D : Discipline (handle env)} (hw : D.Inv w)
    {Post : Except Err α → World → Prop} {f : α → Answer} {p : Prog α}
    (hp : Guarded D.alone Post p w) :
    Guarded D.alone (fun b w' => ∃ r, b = r.map f ∧ Post r w') (answering f p) w := by
  refine guarded_orReturn (D := D.alone) hw ?_
  refine guarded_mono (fun r w' _ hr => ⟨fun e he => ?_, fun a ha => ?_⟩) hp
  · exact guarded_alone_pure ⟨r, by rw [he]; rfl, hr⟩
  · exact guarded_alone_pure ⟨r, by rw [ha]; rfl, hr⟩

/-- What holds of a call run alone, from its guarded operation. -/
theorem after_guarded {D : Discipline (handle env)} {c : Call} {f : α → Answer} {p : Prog α}
    (hc : program env cfg c = answering f p) (hw : D.Inv w) {Post : Except Err α → World → Prop}
    (hp : Guarded D.alone Post p w) :
    ∃ r, outcome env cfg c w = r.map f ∧ Post r (after env cfg c w) := by
  have hans := guarded_answering (f := f) hw hp
  rw [← hc] at hans
  exact (run_guarded (D := D.alone) hw hans).2.2

/-- What holds of a call that succeeds. -/
theorem after_delivers {c : Call} {f : α → Answer} {p : Prog α}
    (hc : program env cfg c = answering f p) (hw : Sound env w) {Post : α → World → Prop}
    (hp : Delivers (alone env) Post p w) {b : Answer} (hb : outcome env cfg c w = .ok b) :
    ∃ a, b = f a ∧ Post a (after env cfg c w) := by
  obtain ⟨r, hr, hpost⟩ := after_guarded (D := conduct env) hc hw hp
  rw [hb] at hr
  cases r with
  | error e => cases hr
  | ok a => exact ⟨a, Except.ok.inj hr, hpost a rfl⟩

theorem sound_after (hf : Fresh env) (cfg : Config) (hw : Sound env w) (c : Call) :
    Sound env (after env cfg c w) ∧ Onward w (after env cfg c w) := by
  have hc := (conducts_program hf cfg alone_admits c fun _ _ h => h).guarded w hw
  exact ⟨(run_guarded (D := alone env) hw hc).1, (run_guarded (D := alone env) hw hc).2.1⟩

theorem sound_serially (hf : Fresh env) (cfg : Config) (calls : List Call) (hw : Sound env w) :
    Sound env (serially env cfg calls w) ∧ Onward w (serially env cfg calls w) := by
  induction calls generalizing w with
  | nil => exact ⟨hw, onward_refl w⟩
  | cons c calls ih =>
    obtain ⟨hw', ho⟩ := sound_after hf cfg hw c
    exact ⟨(ih hw').1, onward_trans ho (ih hw').2⟩

end RivicQ.Runs.Alone
