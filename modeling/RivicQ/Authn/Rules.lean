import RivicQ.Authn.Operations
import RivicQ.Authn.Worlds
import RivicQ.Lib.SingleUse

namespace RivicQ.Authn.Rules

open RivicQ.Lib.GoStrings RivicQ.Lib.Programs RivicQ.Lib.Disciplines RivicQ.Lib.SingleUse
open RivicQ.Authn.Types RivicQ.Authn.Records RivicQ.Authn.Environment RivicQ.Authn.Operations RivicQ.Authn.Worlds

variable {α β : Type} {env : Env} {D : Discipline (handle env)}
variable {Post : Except Err β → World → Prop} {w : World}

theorem guarded_orReturn {p : Prog α} {k : α → Prog β} (hw : D.Inv w)
    (hp : Guarded D (fun r w' => (∀ e, r = .error e → Guarded D Post (fail e) w') ∧
      ∀ a, r = .ok a → Guarded D Post (k a) w') p w) : Guarded D Post (orReturn p k) w := by
  apply guarded_bind hw
  refine guarded_mono (fun r w' _ hr => ?_) hp
  cases r with
  | error e => exact hr.1 e rfl
  | ok a => exact hr.2 a rfl

theorem guarded_orFail {p : Prog α} {e : Err} {k : α → Prog β} (hw : D.Inv w)
    (hp : Guarded D (fun r w' => (∀ e', r = .error e' → Guarded D Post (fail e) w') ∧
      ∀ a, r = .ok a → Guarded D Post (k a) w') p w) : Guarded D Post (orFail p e k) w := by
  apply guarded_bind hw
  refine guarded_mono (fun r w' _ hr => ?_) hp
  cases r with
  | error e' => exact hr.1 e' rfl
  | ok a => exact hr.2 a rfl

theorem guarded_now {k : Time → Prog β} (hk : Guarded D Post (k (env.clock w.ticks)) w.tick) :
    Guarded D Post (now k) w := (guarded_local (by rfl)).mpr hk

theorem guarded_newUUID {k : String → Prog β} (hk : Guarded D Post (k (env.uuid w.ticks)) w.tick) :
    Guarded D Post (newUUID k) w := (guarded_local (by rfl)).mpr hk

theorem guarded_newOpaqueToken {k : String × String → Prog β}
    (he : ∀ e, Guarded D Post (fail e) w.tick)
    (hk : ∀ raw, env.randomHex w.ticks = .ok raw →
      Guarded D Post (k (raw, hashToken env raw)) w.tick) :
    Guarded D Post (orReturn newOpaqueToken k) w := by
  refine (guarded_local (by rfl)).mpr ?_
  simp only [handle, Environment.newOpaqueToken]
  cases hr : env.randomHex w.ticks with
  | error e => exact he e
  | ok raw => exact hk raw hr

theorem guarded_hashPassword {password : String} {k : String → Prog β}
    (he : ∀ e, Guarded D Post (fail e) w.tick)
    (hk : ∀ hash, env.bcryptGenerate w.ticks password = .ok hash → Guarded D Post (k hash) w.tick) :
    Guarded D Post (orReturn (hashPassword password) k) w := by
  refine (guarded_local (by rfl)).mpr ?_
  simp only [handle]
  cases hr : env.bcryptGenerate w.ticks password with
  | error e => exact he e
  | ok hash => exact hk hash hr

theorem guarded_generateTOTP {accountName : String} {k : String × String → Prog β}
    (he : ∀ e, Guarded D Post (fail e) w.tick)
    (hk : ∀ key, env.totpGenerate w.ticks accountName = .ok key → Guarded D Post (k key) w.tick) :
    Guarded D Post (orReturn (generateTOTP accountName) k) w := by
  refine (guarded_local (by rfl)).mpr ?_
  simp only [handle]
  cases hr : env.totpGenerate w.ticks accountName with
  | error e => exact he e
  | ok key => exact hk key hr

/-- A code counts as valid only for a secret that is not blank. -/
theorem guarded_totpValid {u : User} {code : String} {k : Bool → Prog β}
    (hn : ∀ w', w'.store = w.store → D.Inv w' → Guarded D Post (k false) w')
    (hv : trimSpace u.mfaSecret ≠ "" →
      env.totpValidate (env.clock w.ticks) (trimSpace code) u.mfaSecret = true →
      Guarded D Post (k true) w.tick) (hw : D.Inv w) :
    Guarded D Post (totpValid u code k) w := by
  unfold totpValid
  split
  · exact hn w rfl hw
  · refine (guarded_local (by rfl)).mpr ?_
    have hw' : D.Inv w.tick := (D.keeps_local (.validateTOTP (trimSpace code) u.mfaSecret) w rfl hw).1
    simp only [handle]
    cases hr : env.totpValidate (env.clock w.ticks) (trimSpace code) u.mfaSecret with
    | false => exact hn w.tick rfl hw'
    | true => exact hv ‹_› hr

theorem guarded_store {o : StoreOp} {k : o.Reply → Prog β} (hG : D.Guard w (.store o))
    (hk : ∀ w', D.Rely (handle env (.store o) w).2 w' → D.Inv w' →
      Guarded D Post (k (handle env (.store o) w).1) w') :
    Guarded D Post ((store o).bind k) w := (guarded_yield (by rfl)).mpr ⟨hG, hk⟩

/-- Whenever the program succeeds, its value and the world it ends in satisfy
`Post`. -/
def Delivers (D : Discipline (handle env)) (Post : α → World → Prop) (p : Prog α) (w : World) :
    Prop :=
  Guarded D (fun r w' => ∀ a, r = .ok a → Post a w') p w

section Delivers

variable {Post : β → World → Prop}

theorem delivers_fail (e : Err) : Delivers D Post (fail e) w :=
  guarded_pure.mpr fun w' _ _ a h => by cases h

theorem delivers_done {b : β} (h : ∀ w', D.Rely w w' → D.Inv w' → Post b w') :
    Delivers D Post (done b) w :=
  guarded_pure.mpr fun w' hr hw b' hb => by cases hb; exact h w' hr hw

theorem delivers_mono {Post' : β → World → Prop} {p : Prog β}
    (h : ∀ b w', D.Inv w' → Post b w' → Post' b w') (hp : Delivers D Post p w) :
    Delivers D Post' p w := guarded_mono (fun _ w' hw' hr b hb => h b w' hw' (hr b hb)) hp

theorem delivers_orReturn {p : Prog α} {k : α → Prog β} (hw : D.Inv w)
    (hp : Delivers D (fun a w' => D.Inv w' → Delivers D Post (k a) w') p w) :
    Delivers D Post (orReturn p k) w := by
  apply guarded_orReturn hw
  exact guarded_mono (fun r w' hw' hr => ⟨fun e _ => delivers_fail e, fun a ha => hr a ha hw'⟩) hp

theorem delivers_orFail {p : Prog α} {e : Err} {k : α → Prog β} (hw : D.Inv w)
    (hp : Delivers D (fun a w' => D.Inv w' → Delivers D Post (k a) w') p w) :
    Delivers D Post (orFail p e k) w := by
  apply guarded_orFail hw
  exact guarded_mono (fun r w' hw' hr => ⟨fun e' _ => delivers_fail e, fun a ha => hr a ha hw'⟩) hp

end Delivers

section Uses

variable {Allowed : Op → Prop} {p : Prog α} {k : α → Prog β}

theorem uses_orFail {e : Err} (hp : Uses (S := Calls) Allowed p)
    (hk : ∀ a, Uses (S := Calls) Allowed (k a)) : Uses (S := Calls) Allowed (orFail p e k) := by
  refine uses_bind hp fun r => ?_
  cases r with
  | error e => exact uses_pure _
  | ok a => exact hk a

theorem uses_orReturn (hp : Uses (S := Calls) Allowed p)
    (hk : ∀ a, Uses (S := Calls) Allowed (k a)) : Uses (S := Calls) Allowed (orReturn p k) := by
  refine uses_bind hp fun r => ?_
  cases r with
  | error e => exact uses_pure _
  | ok a => exact hk a

theorem uses_ask {o : Op} {k : o.Reply → Program Calls α} (ho : Allowed o)
    (hk : ∀ r, Uses (S := Calls) Allowed (k r)) :
    Uses (S := Calls) Allowed (.request (o : Calls.Op) k) :=
  uses_request.mpr ⟨ho, hk⟩

end Uses

def Failed : Except Err α → Prop
  | .error _ => True
  | .ok _ => False

theorem not_failed_ok (a : α) : ¬ Failed (.ok a) := id

variable {Fires : (o : Op) → o.Reply → Prop} {p : Prog α} {k : α → Prog β}

theorem until_fail (e : Err) : Until (S := Calls) Fires Failed (fail e : Prog α) :=
  until_pure.mpr trivial

theorem until_now {k : Time → Prog β} (hk : ∀ t, Until Fires Failed (k t)) :
    Until Fires Failed (now k) := until_request.mpr fun t => Or.inr (hk t)

theorem until_newUUID {k : String → Prog β} (hk : ∀ id, Until Fires Failed (k id)) :
    Until Fires Failed (newUUID k) := until_request.mpr fun id => Or.inr (hk id)

theorem until_totpValid {u : User} {code : String} {k : Bool → Prog β}
    (hk : ∀ valid, Until Fires Failed (k valid)) : Until Fires Failed (totpValid u code k) := by
  unfold totpValid
  split
  · exact hk false
  · exact until_request.mpr fun valid => Or.inr (hk valid)

theorem until_orReturn (hk : ∀ a, Until Fires Failed (k a)) : Until Fires Failed (orReturn p k) := by
  refine until_of_forall fun r => ?_
  cases r with
  | error e => exact until_fail e
  | ok a => exact hk a

theorem until_orReturn_left (hp : Until Fires Failed p) : Until Fires Failed (orReturn p k) := by
  refine until_bind hp fun r hr => ?_
  cases r with
  | error e => exact until_fail e
  | ok a => exact hr.elim

theorem until_orFail {e : Err} (hk : ∀ a, Until Fires Failed (k a)) :
    Until Fires Failed (orFail p e k) := by
  refine until_of_forall fun r => ?_
  cases r with
  | error e' => exact until_fail e
  | ok a => exact hk a

theorem until_orFail_left {e : Err} (hp : Until Fires Failed p) :
    Until Fires Failed (orFail p e k) := by
  refine until_bind hp fun r hr => ?_
  cases r with
  | error e' => exact until_fail e
  | ok a => exact hr.elim

end RivicQ.Authn.Rules
