import Mathlib.Logic.Relation
import RivicQ.Shared.Events

namespace RivicQ.Properties.ScanStreams

open Function (update update_self update_of_ne)
open RivicQ.Lib.Channels RivicQ.Lib.Locks
open RivicQ.Shared.Events RivicQ.Shared.Events.State

variable {s s' : State} {t : Thread}

section Steps

@[simp] theorem position_move (p : Position) : (s.move t p).position = update s.position t p := rfl

@[simp] theorem session_move (p : Position) : (s.move t p).session = s.session := rfl

@[simp] theorem mu_move (p : Position) : (s.move t p).mu = s.mu := rfl

@[simp] theorem sessions_move (p : Position) : (s.move t p).sessions = s.sessions := rfl

@[simp] theorem scanID_move (p : Position) : (s.move t p).scanID = s.scanID := rfl

@[simp] theorem gone_move (p : Position) : (s.move t p).gone = s.gone := rfl

@[simp] theorem body_move (p : Position) : (s.move t p).body = s.body := rfl

@[simp] theorem set_session (ss : Nat) (x : ScanSession) :
    (s.set ss x).session = update s.session ss x := rfl

@[simp] theorem set_position (ss : Nat) (x : ScanSession) : (s.set ss x).position = s.position := rfl

@[simp] theorem unlock_session (ss : Nat) :
    (s.unlock ss).session = update s.session ss { s.session ss with mu := none } := rfl

@[simp] theorem unlock_position (ss : Nat) : (s.unlock ss).position = s.position := rfl

@[simp] theorem write_session (r : Nat) (f : String) : (s.write r f).session = s.session := rfl

@[simp] theorem write_position (r : Nat) (f : String) : (s.write r f).position = s.position := rfl

/-- The steps of a goroutine, by where it is. -/
inductive Goes (s : State) (t : Thread) : State → Prop
  | lockCreate (hp : s.position t = .createSession) (hmu : s.mu = none) :
      Goes s t ({ s with mu := some t }.move t .create)
  | lockGet (hp : s.position t = .getSession) (hmu : s.mu = none) :
      Goes s t ({ s with mu := some t }.move t .get)
  | lockDelete {ss : Nat} (hp : s.position t = .close ss .lockSessions) (hmu : s.mu = none) :
      Goes s t ({ s with mu := some t }.move t (.close ss .delete))
  | create (hp : s.position t = .create) :
      Goes s t ((({ s with
        mu := none
        sessions := update s.sessions (s.scanID t.request) (some t.request) }.set t.request
          newSession).move t .streaming).move (.simulator t.request) .getSession)
  | receive {m : String} {rest : List String} (hp : s.position t = .streaming)
      (hq : (s.session t.request).msg.queue = m :: rest) :
      Goes s t ((s.set t.request { s.session t.request with
        msg := { (s.session t.request).msg with queue := rest } }).write t.request
          (progressFrame m))
  | drained (hp : s.position t = .streaming) (hq : (s.session t.request).msg.queue = [])
      (hc : (s.session t.request).msg.closed = true) :
      Goes s t ((s.write t.request (doneFrame (s.scanID t.request))).move t .finished)
  | missing (hp : s.position t = .get) (hs : s.sessions (s.scanID t.request) = none) :
      Goes s t ({ s with mu := none }.move t .finished)
  | get {ss : Nat} (hp : s.position t = .get) (hs : s.sessions (s.scanID t.request) = some ss) :
      Goes s t ({ s with mu := none }.move t (.stage 0 ss))
  | stopped {ss : Nat} (hp : (∃ i, s.position t = .stage i ss) ∨ ∃ i, s.position t = .sleep i ss)
      (hd : (s.session ss).done = true) : Goes s t (s.move t .finished)
  | stage {i ss : Nat} (now : String) (hp : s.position t = .stage i ss) :
      Goes s t (s.move t (.send i ss (marshal (evt (s.scanID t.request) i now)) .lock))
  | sleep {i ss : Nat} (hp : s.position t = .sleep i ss) : Goes s t (s.move t (.stage (i + 1) ss))
  | lockSend {i ss : Nat} {data : String} (hp : s.position t = .send i ss data .lock)
      (hmu : (s.session ss).mu = none) :
      Goes s t ((s.set ss { s.session ss with mu := some t }).move t (.send i ss data .test))
  | drop {i ss : Nat} {data : String} (hp : s.position t = .send i ss data .test)
      (hc : (s.session ss).closed = true) : Goes s t ((s.unlock ss).move t (sent i ss))
  | test {i ss : Nat} {data : String} (hp : s.position t = .send i ss data .test)
      (hc : (s.session ss).closed = false) : Goes s t (s.move t (.send i ss data .offer))
  | offer {i ss : Nat} {data : String} {msg : Channel String}
      (hp : s.position t = .send i ss data .offer) (hm : (s.session ss).msg.offer data = .moves msg) :
      Goes s t ((s.set ss { s.session ss with msg, mu := none }).move t (sent i ss))
  | lockClose {ss : Nat} (hp : s.position t = .close ss .lock) (hmu : (s.session ss).mu = none) :
      Goes s t ((s.set ss { s.session ss with mu := some t }).move t (.close ss .test))
  | closedAlready {ss : Nat} (hp : s.position t = .close ss .test)
      (hc : (s.session ss).closed = true) : Goes s t ((s.unlock ss).move t .finished)
  | begin {ss : Nat} (hp : s.position t = .close ss .test) (hc : (s.session ss).closed = false) :
      Goes s t (s.move t (.close ss .mark))
  | mark {ss : Nat} (hp : s.position t = .close ss .mark) :
      Goes s t ((s.set ss { s.session ss with closed := true }).move t (.close ss .closeDone))
  | closeDone {ss : Nat} (hp : s.position t = .close ss .closeDone) :
      Goes s t ((s.set ss { s.session ss with done := true }).move t (.close ss .closeMsg))
  | closeMsg {ss : Nat} (hp : s.position t = .close ss .closeMsg) :
      Goes s t ((s.set ss { s.session ss with
        msg := { (s.session ss).msg with closed := true } }).move t (.close ss .lockSessions))
  | delete {ss : Nat} (hp : s.position t = .close ss .delete) :
      Goes s t ((State.unlock { s with
        mu := none
        sessions := update s.sessions (s.scanID ss) none } ss).move t .finished)

theorem goes_of_lock {ss : Nat} {p : Position} (h : s.lock t ss p = .moves s') :
    (s.session ss).mu = none ∧ s' = (s.set ss { s.session ss with mu := some t }).move t p := by
  unfold State.lock at h
  split at h
  · rename_i hmu
    exact ⟨hmu, (Outcome.moves.inj h).symm⟩
  · cases h

theorem goes_of_lockSessions {p : Position} (h : s.lockSessions t p = .moves s') :
    s.mu = none ∧ s' = { s with mu := some t }.move t p := by
  unfold State.lockSessions at h
  split at h
  · rename_i hmu
    exact ⟨hmu, (Outcome.moves.inj h).symm⟩
  · cases h

theorem map_eq_moves {σ τ : Type} {f : σ → τ} {o : Outcome σ} {b : τ} (h : o.map f = .moves b) :
    ∃ a, o = .moves a ∧ b = f a := by
  cases o with
  | blocked => cases h
  | panics => cases h
  | moves a => exact ⟨a, rfl, (Outcome.moves.inj h).symm⟩

theorem goes_of_send {i ss : Nat} {data : String} {p : Sending}
    (hp : s.position t = .send i ss data p) (h : s.send t i ss data p = .moves s') :
    Goes s t s' := by
  cases p with
  | lock =>
    obtain ⟨hmu, rfl⟩ := goes_of_lock h
    exact .lockSend hp hmu
  | test =>
    obtain rfl := Outcome.moves.inj h
    split
    · exact .drop hp ‹_›
    · exact .test hp (by simp_all)
  | offer =>
    obtain ⟨msg, hm, rfl⟩ := map_eq_moves h
    exact .offer hp hm

theorem goes_of_close {ss : Nat} {p : Closing} (hp : s.position t = .close ss p)
    (h : s.close t ss p = .moves s') : Goes s t s' := by
  cases p with
  | lock =>
    obtain ⟨hmu, rfl⟩ := goes_of_lock h
    exact .lockClose hp hmu
  | test =>
    obtain rfl := Outcome.moves.inj h
    split
    · exact .closedAlready hp ‹_›
    · exact .begin hp (by simp_all)
  | mark =>
    obtain rfl := Outcome.moves.inj h
    exact .mark hp
  | closeDone =>
    simp only [State.close] at h
    split at h
    · cases h
    · obtain rfl := Outcome.moves.inj h
      exact .closeDone hp
  | closeMsg =>
    obtain ⟨msg, hm, rfl⟩ := map_eq_moves h
    obtain ⟨-, rfl⟩ := Channel.close_cases hm
    exact .closeMsg hp
  | lockSessions =>
    obtain ⟨hmu, rfl⟩ := goes_of_lockSessions h
    exact .lockDelete hp hmu
  | delete =>
    obtain rfl := Outcome.moves.inj h
    exact .delete hp

theorem goes_of_go {now : String} (h : s.go t now = .moves s') : Goes s t s' := by
  unfold State.go at h
  cases hp : s.position t with
  | idle | finished =>
    rw [hp] at h
    cases h
  | createSession =>
    rw [hp] at h
    obtain ⟨hmu, rfl⟩ := goes_of_lockSessions h
    exact .lockCreate hp hmu
  | create =>
    rw [hp] at h
    obtain rfl := Outcome.moves.inj h
    exact .create hp
  | streaming =>
    simp only [hp] at h
    split at h
    · rename_i m msg hm
      obtain rfl := Outcome.moves.inj h
      obtain ⟨a, rest, hq, ha, rfl⟩ | ⟨_, _, ha, _⟩ := Channel.receive_cases hm
      · cases ha
        exact .receive hp hq
      · cases ha
    · rename_i msg hm
      obtain rfl := Outcome.moves.inj h
      obtain ⟨_, _, _, ha, _⟩ | ⟨hq, hc, _⟩ := Channel.receive_cases hm
      · cases ha
      · exact .drained hp hq hc
    · cases h
    · cases h
  | getSession =>
    rw [hp] at h
    obtain ⟨hmu, rfl⟩ := goes_of_lockSessions h
    exact .lockGet hp hmu
  | get =>
    simp only [hp] at h
    obtain rfl := Outcome.moves.inj h
    cases hs : s.sessions (s.scanID t.request) with
    | none => exact .missing hp hs
    | some ss => exact .get hp hs
  | stage i ss =>
    simp only [hp] at h
    obtain rfl := Outcome.moves.inj h
    split
    · exact .stopped (.inl ⟨i, hp⟩) (by simp_all)
    · exact .stage now hp
  | send i ss data p =>
    rw [hp] at h
    exact goes_of_send hp h
  | sleep i ss =>
    simp only [hp] at h
    obtain rfl := Outcome.moves.inj h
    split
    · exact .stopped (.inr ⟨i, hp⟩) ‹_›
    · exact .sleep hp
  | close ss p =>
    rw [hp] at h
    exact goes_of_close hp h

end Steps

section Runs

def Running (p : Position) : Prop := p ≠ .idle ∧ p ≠ .finished

/-- Nobody asks for the events of a scan that another request is still being served for. -/
def Fresh (s : State) : Action → Prop
  | .arrive _ param query fresh =>
    ∀ t, Running (s.position t) → s.scanID t.request ≠ idOf param query fresh
  | _ => True

def quiet (_ : State) : Action → Bool
  | .arrive _ _ _ _ => false
  | _ => true

/-- The steps of one request that nothing interferes with, until its stream is over. -/
def undisturbed : List Action :=
  List.replicate 2 (.go (.handler 0) "") ++ List.replicate 38 (.go (.simulator 0) "12:00") ++
    List.replicate 7 (.go (.handler 0) "")

def asked (r : Nat) (id : String) (s : State) : State :=
  { s with scanID := update s.scanID r id }.move (.handler r) .createSession

/-- The state after a single request. -/
def served : State := (follow step quiet (asked 0 "a" initial) undisturbed).getD initial

theorem isSome_over : (follow step quiet (asked 0 "a" initial) undisturbed).isSome = true := by
  decide +kernel

theorem reach_over : Reach step Fresh initial served := by
  have hasked : Reach step Fresh initial (asked 0 "a" initial) :=
    .next (.arrive 0 "a" "" "") .start (fun t ht => absurd rfl ht.1) rfl
  refine reach_of_follow quiet (fun s a ha => ?_) undisturbed hasked ?_
  · cases a with
    | arrive => cases ha
    | _ => trivial
  · obtain ⟨s, hs⟩ := Option.isSome_iff_exists.mp isSome_over
    rw [served, hs]
    rfl

end Runs

section Safety

/-- The session whose lock a goroutine holds. -/
def held : Position → Option Nat
  | .send _ ss _ .test => some ss
  | .send _ ss _ .offer => some ss
  | .close _ .lock => none
  | .close ss _ => some ss
  | _ => none

/-- Whether a goroutine holds the lock of the map of sessions. -/
def heldSessions : Position → Option Unit
  | .create => some ()
  | .get => some ()
  | .close _ .delete => some ()
  | _ => none

/-- The session that a goroutine works on. -/
def workedOn : Position → Option Nat
  | .stage _ ss => some ss
  | .send _ ss _ _ => some ss
  | .sleep _ ss => some ss
  | .close ss _ => some ss
  | _ => none

/-- The flags of a session that is not being closed. -/
def Settled (x : ScanSession) : Prop := x.done = x.closed ∧ x.msg.closed = x.closed

/-- What the holder of a session's lock knows of it. -/
def Knows : Position → ScanSession → Prop
  | .send _ _ _ .offer, x => x.closed = false ∧ Settled x
  | .close _ .mark, x => x.closed = false ∧ Settled x
  | .close _ .closeDone, x => x.closed = true ∧ x.done = false ∧ x.msg.closed = false
  | .close _ .closeMsg, x => x.closed = true ∧ x.done = true ∧ x.msg.closed = false
  | .close _ .lockSessions, x => x.closed = true ∧ Settled x
  | .close _ .delete, x => x.closed = true ∧ Settled x
  | _, x => Settled x

/-- `createSession` is behind a handler. -/
def Behind (p : Position) : Prop := p ≠ .idle ∧ p ≠ .createSession ∧ p ≠ .create

/-- The session of a request has been created. -/
def Made (s : State) (r : Nat) : Prop := Behind (s.position (.handler r))

/-- Where the goroutines of a request can be. -/
def Fits : Thread → Position → Prop
  | .handler _, .idle => True
  | .handler _, .createSession => True
  | .handler _, .create => True
  | .handler _, .streaming => True
  | .handler r, .close ss _ => ss = r
  | .handler _, .finished => True
  | .handler _, _ => False
  | .simulator _, .createSession => False
  | .simulator _, .create => False
  | .simulator _, .streaming => False
  | .simulator _, _ => True

abbrev SessionLocks (s : State) : Prop :=
  Monitors ScanSession.mu held Settled Knows s.session s.position

abbrev MapLock (s : State) : Prop :=
  Monitors id heldSessions (fun _ => True) (fun _ _ => True) (fun _ : Unit => s.mu) s.position

structure Placed (s : State) : Prop where
  made : ∀ t ss, workedOn (s.position t) = some ss → Made s ss
  registered : ∀ id ss, s.sessions id = some ss → Made s ss
  fits : ∀ t, Fits t (s.position t)
  started : ∀ r, s.position (.simulator r) = .idle ↔ ¬ Made s r

theorem heldSessions_sent (i ss : Nat) : heldSessions (sent i ss) = none := by
  unfold sent
  split <;> rfl

theorem held_sent (i ss : Nat) : held (sent i ss) = none := by
  unfold sent
  split <;> rfl

theorem workedOn_sent (i ss : Nat) : workedOn (sent i ss) = some ss := by
  unfold sent
  split <;> rfl

/-- Only a handler creates a session, and the simulator is not running yet then. -/
theorem Placed.create (hs : Placed s) (hp : s.position t = .create) :
    t = .handler t.request ∧ s.position (.simulator t.request) = .idle ∧ ¬ Made s t.request := by
  have hfits := hs.fits t
  rw [hp] at hfits
  cases t with
  | handler r =>
    have hmade : ¬ Made s r := fun h => h.2.2 hp
    exact ⟨rfl, (hs.started r).mpr hmade, hmade⟩
  | simulator r => cases hfits

theorem mapLock_go (h : Goes s t s') (hs : Placed s) (hl : MapLock s) : MapLock s' := by
  cases h with
  | lockCreate hp hmu => exact hl.acquire (l := ()) hmu (by rw [hp]; rfl) rfl rfl fun _ => trivial
  | lockGet hp hmu => exact hl.acquire (l := ()) hmu (by rw [hp]; rfl) rfl rfl fun _ => trivial
  | lockDelete hp hmu => exact hl.acquire (l := ()) hmu (by rw [hp]; rfl) rfl rfl fun _ => trivial
  | create hp =>
    obtain ⟨ht, hidle, -⟩ := hs.create hp
    have hdone : Monitors id heldSessions (fun _ => True) (fun _ _ => True) (fun _ : Unit => none)
        (update s.position t .streaming) :=
      hl.release (l := ()) (by rw [hp]; rfl) rfl rfl fun _ => trivial
    refine hdone.aside ?_ rfl
    rw [update_of_ne (by rw [ht]; simp), hidle]
    rfl
  | missing hp hs => exact hl.release (l := ()) (by rw [hp]; rfl) rfl rfl fun _ => trivial
  | get hp hs => exact hl.release (l := ()) (by rw [hp]; rfl) rfl rfl fun _ => trivial
  | delete hp => exact hl.release (l := ()) (by rw [hp]; rfl) rfl rfl fun _ => trivial
  | receive hp hq => exact hl
  | stopped hp hd =>
    refine hl.aside ?_ rfl
    obtain ⟨_, hp⟩ | ⟨_, hp⟩ := hp <;> rw [hp] <;> rfl
  | drop hp hc => exact hl.aside (by rw [hp]; rfl) (heldSessions_sent _ _)
  | offer hp hm => exact hl.aside (by rw [hp]; rfl) (heldSessions_sent _ _)
  | drained hp _ _ | stage _ hp | sleep hp | lockSend hp _ | test hp _ | lockClose hp _
  | closedAlready hp _ | begin hp _ | mark hp | closeDone hp | closeMsg hp =>
    exact hl.aside (by rw [hp]; rfl) rfl

/-- A goroutine that holds the lock of a session works on it. -/
theorem workedOn_of_held {p : Position} {ss : Nat} (h : held p = some ss) :
    workedOn p = some ss := by
  cases p with
  | send i ss' data q => cases q <;> simp_all [held, workedOn]
  | close ss' q => cases q <;> simp_all [held, workedOn]
  | _ => cases h

theorem knows_queue {p : Position} {x : ScanSession} (queue : List String) (h : Knows p x) :
    Knows p { x with msg := { x.msg with queue } } := by
  cases p with
  | send _ _ _ q => cases q <;> exact h
  | close _ q => cases q <;> exact h
  | _ => exact h

theorem sessionLocks_go (h : Goes s t s') (hs : Placed s) (hl : SessionLocks s) :
    SessionLocks s' := by
  cases h with
  | lockSend hp hmu => exact hl.acquire hmu (by rw [hp]; rfl) rfl rfl id
  | lockClose hp hmu => exact hl.acquire hmu (by rw [hp]; rfl) rfl rfl id
  | create hp =>
    obtain ⟨ht, hidle, hmade⟩ := hs.create hp
    have hfree : (s.session t.request).mu = none := by
      by_contra hsome
      obtain ⟨u, hu⟩ := Option.ne_none_iff_exists'.mp hsome
      exact hmade (hs.made u _ (workedOn_of_held ((hl.locks _ u).mp hu)))
    have hnew : Monitors ScanSession.mu held Settled Knows
        (update s.session t.request newSession) s.position := by
      refine hl.touch hfree.symm (fun _ => ⟨rfl, rfl⟩) fun u hu => ?_
      rw [hfree] at hu
      cases hu
    have hmoved : Monitors ScanSession.mu held Settled Knows
        (update s.session t.request newSession) (update s.position t .streaming) :=
      hnew.aside (by rw [hp]; rfl) rfl
    refine hmoved.aside ?_ rfl
    rw [update_of_ne (by rw [ht]; simp), hidle]
    rfl
  | receive hp hq => exact hl.touch rfl id fun u _ => knows_queue _
  | drop hp hc => exact hl.release (by rw [hp]; rfl) rfl (held_sent _ _) (by rw [hp]; exact id)
  | closedAlready hp hc => exact hl.release (by rw [hp]; rfl) rfl rfl (by rw [hp]; exact id)
  | delete hp => exact hl.release (by rw [hp]; rfl) rfl rfl (by rw [hp]; exact And.right)
  | offer hp hm =>
    refine hl.release (by rw [hp]; rfl) rfl (held_sent _ _) ?_
    rw [hp]
    rintro ⟨_, hdone, hmsg⟩
    obtain ⟨_, ⟨rfl, _⟩ | ⟨rfl, _⟩⟩ := Channel.offer_cases hm <;> exact ⟨hdone, hmsg⟩
  | mark hp =>
    refine hl.work (by rw [hp]; rfl) ((hl.locks _ t).mpr (by rw [hp]; rfl)) rfl ?_
    rw [hp]
    rintro ⟨hopen, hdone, hmsg⟩
    exact ⟨rfl, hdone.trans hopen, hmsg.trans hopen⟩
  | closeDone hp =>
    refine hl.work (by rw [hp]; rfl) ((hl.locks _ t).mpr (by rw [hp]; rfl)) rfl ?_
    rw [hp]
    rintro ⟨hclosed, _, hmsg⟩
    exact ⟨hclosed, rfl, hmsg⟩
  | closeMsg hp =>
    refine hl.work (by rw [hp]; rfl) ((hl.locks _ t).mpr (by rw [hp]; rfl)) rfl ?_
    rw [hp]
    rintro ⟨hclosed, hdone, _⟩
    exact ⟨hclosed, hdone.trans hclosed.symm, hclosed.symm⟩
  | test hp hc => exact hl.keep (by rw [hp]; rfl) rfl (by rw [hp]; exact fun hs => ⟨hc, hs⟩)
  | begin hp hc => exact hl.keep (by rw [hp]; rfl) rfl (by rw [hp]; exact fun hs => ⟨hc, hs⟩)
  | lockDelete hp hmu => exact hl.keep (by rw [hp]; rfl) rfl (by rw [hp]; exact id)
  | stopped hp hd =>
    refine hl.aside ?_ rfl
    obtain ⟨_, hp⟩ | ⟨_, hp⟩ := hp <;> rw [hp] <;> rfl
  | lockCreate hp _ | lockGet hp _ | drained hp _ _ | missing hp _ | get hp _ | stage _ hp
  | sleep hp => exact hl.aside (by rw [hp]; rfl) rfl

/-- How a step moves a goroutine that does not create a session. -/
structure Shift (s : State) (t : Thread) (p : Position) : Prop where
  behind : Behind (s.position t) ↔ Behind p
  fits : Fits t (s.position t) → Fits t p
  idle : ∀ r, t = .simulator r → s.position t ≠ .idle ∧ p ≠ .idle
  worked : ∀ ss, workedOn p = some ss →
    workedOn (s.position t) = some ss ∨ s.sessions (s.scanID t.request) = some ss ∨
      ss = t.request ∧ Made s ss

theorem shift_of {old p : Position} (hp : s.position t = old) (hbehind : Behind old ↔ Behind p)
    (hfits : Fits t old → Fits t p) (hidle : old ≠ .idle ∧ p ≠ .idle)
    (hworked : ∀ ss, workedOn p = some ss → workedOn old = some ss) : Shift s t p := by
  subst hp
  exact ⟨hbehind, hfits, fun _ _ => hidle, fun ss hss => .inl (hworked ss hss)⟩

theorem behind_sent (i ss : Nat) : Behind (sent i ss) := by
  unfold sent
  split <;> simp [Behind]

theorem shift_sent {i ss : Nat} {data : String} {q : Sending}
    (hp : s.position t = .send i ss data q) : Shift s t (sent i ss) := by
  refine shift_of hp (iff_of_true (by simp [Behind]) (behind_sent i ss)) ?_
    ⟨by simp, (behind_sent i ss).1⟩ fun ss' h => by rwa [workedOn_sent] at h
  unfold sent
  cases t <;> split <;> simp [Fits]

theorem shift_go (h : Goes s t s') :
    (s.position t = .create ∧
      s'.position =
        update (update s.position t .streaming) (.simulator t.request) .getSession ∧
      s'.sessions = update s.sessions (s.scanID t.request) (some t.request)) ∨
    ((∃ p, s'.position = update s.position t p ∧ Shift s t p) ∧
      ∀ id ss, s'.sessions id = some ss → s.sessions id = some ss) := by
  cases h with
  | create hp => exact .inl ⟨hp, rfl, rfl⟩
  | receive hp hq =>
    refine .inr ⟨⟨.streaming, ?_, ?_⟩, fun _ _ h => h⟩
    · exact (Function.update_eq_self_iff.mpr hp.symm).symm
    · exact shift_of hp Iff.rfl id ⟨by simp, by simp⟩ fun _ h => h
  | get hp hs =>
    refine .inr ⟨⟨_, rfl, ⟨?_, ?_, ?_, fun ss hss => ?_⟩⟩, fun _ _ h => h⟩
    · simp [Behind, hp]
    · rw [hp]
      cases t <;> simp [Fits]
    · simp [hp]
    · cases hss
      exact .inr (.inl hs)
  | delete hp =>
    refine .inr ⟨⟨_, rfl, shift_of hp ?_ ?_ ?_ ?_⟩, fun id ss hss => ?_⟩
    · simp [Behind]
    · cases t <;> simp [Fits]
    · simp
    · simp [workedOn]
    · change update s.sessions _ none id = some ss at hss
      rw [Function.update_apply] at hss
      split at hss
      · cases hss
      · exact hss
  | drop hp hc => exact .inr ⟨⟨_, rfl, shift_sent hp⟩, fun _ _ h => h⟩
  | offer hp hm => exact .inr ⟨⟨_, rfl, shift_sent hp⟩, fun _ _ h => h⟩
  | stopped hp hd =>
    refine .inr ⟨⟨_, rfl, ?_⟩, fun _ _ h => h⟩
    obtain ⟨_, hp⟩ | ⟨_, hp⟩ := hp <;>
      exact shift_of hp (by simp [Behind]) (by cases t <;> simp [Fits]) (by simp) (by simp [workedOn])
  | stage _ hp =>
    exact .inr ⟨⟨_, rfl, shift_of hp (by simp [Behind]) (by cases t <;> simp [Fits]) (by simp)
      (by simp [workedOn])⟩, fun _ _ h => h⟩
  | _ hp =>
    exact .inr ⟨⟨_, rfl, shift_of hp (by simp [Behind]) (by cases t <;> simp [Fits]) (by simp)
      (by simp [workedOn])⟩, fun _ _ h => h⟩

theorem made_shift {p : Position} (hposition : s'.position = update s.position t p)
    (hshift : Shift s t p) (r : Nat) : Made s' r ↔ Made s r := by
  unfold Made
  rw [hposition, Function.update_apply]
  split
  · rename_i ht
    rw [ht, hshift.behind]
  · exact Iff.rfl

theorem placed_shift {p : Position} (hposition : s'.position = update s.position t p)
    (hshift : Shift s t p) (hsessions : ∀ id ss, s'.sessions id = some ss → s.sessions id = some ss)
    (hs : Placed s) : Placed s' := by
  have hmade := made_shift hposition hshift
  refine ⟨fun u ss hss => ?_, fun id ss hss => ?_, fun u => ?_, fun r => ?_⟩
  · rw [hmade]
    rw [hposition, Function.update_apply] at hss
    split at hss
    · obtain hss | hss | ⟨_, hss⟩ := hshift.worked ss hss
      · exact hs.made t ss hss
      · exact hs.registered _ ss hss
      · exact hss
    · exact hs.made u ss hss
  · rw [hmade]
    exact hs.registered id ss (hsessions id ss hss)
  · rw [hposition, Function.update_apply]
    split
    · rename_i hu
      rw [hu]
      exact hshift.fits (hs.fits t)
    · exact hs.fits u
  · rw [hmade, hposition, Function.update_apply]
    split
    · rename_i hu
      obtain ⟨hold, hnew⟩ := hshift.idle r hu.symm
      rw [← hs.started, hu]
      exact iff_of_false hnew hold
    · exact hs.started r

theorem placed_create (hp : s.position t = .create)
    (hposition : s'.position =
      update (update s.position t .streaming) (.simulator t.request) .getSession)
    (hsessions : s'.sessions = update s.sessions (s.scanID t.request) (some t.request))
    (hs : Placed s) : Placed s' := by
  obtain ⟨ht, hidle, -⟩ := hs.create hp
  have hhandler : ∀ r, s'.position (.handler r) =
      if r = t.request then .streaming else s.position (.handler r) := by
    intro r
    rw [hposition, update_of_ne (by simp), Function.update_apply]
    refine if_congr ?_ rfl rfl
    rw [ht]
    simp [Thread.request]
  have hmade : ∀ r, Made s' r ↔ r = t.request ∨ Made s r := by
    intro r
    unfold Made
    rw [hhandler]
    split
    · rename_i hr
      exact iff_of_true (by simp [Behind]) (.inl hr)
    · rename_i hr
      exact (or_iff_right hr).symm
  have hold : ∀ u, workedOn (s'.position u) = workedOn (s.position u) := by
    intro u
    rw [hposition, Function.update_apply]
    split
    · rename_i hu
      rw [hu, hidle]
      rfl
    · rw [Function.update_apply]
      split
      · rename_i hu
        rw [hu, hp]
        rfl
      · rfl
  refine ⟨fun u ss hss => ?_, fun id ss hss => ?_, fun u => ?_, fun r => ?_⟩
  · exact (hmade ss).mpr (.inr (hs.made u ss (hold u ▸ hss)))
  · rw [hsessions, Function.update_apply] at hss
    rw [hmade]
    split at hss
    · exact .inl (Option.some.inj hss).symm
    · exact .inr (hs.registered id ss hss)
  · rw [hposition, Function.update_apply]
    split
    · rename_i hu
      rw [hu]
      trivial
    · rw [Function.update_apply]
      split
      · rename_i hu
        rw [hu, ht]
        trivial
      · exact hs.fits u
  · rw [hmade, hposition, Function.update_apply]
    by_cases hr : r = t.request
    · rw [if_pos (by rw [hr])]
      exact iff_of_false (by simp) fun h => h (.inl hr)
    · rw [if_neg (by simpa using hr), update_of_ne (by rw [ht]; simp), hs.started, or_iff_right hr]

theorem placed_go (h : Goes s t s') (hs : Placed s) : Placed s' := by
  obtain ⟨hp, hposition, hsessions⟩ | ⟨⟨p, hposition, hshift⟩, hsessions⟩ := shift_go h
  · exact placed_create hp hposition hsessions hs
  · exact placed_shift hposition hshift hsessions hs

/-- No channel is ever overfull. -/
def Roomy (s : State) : Prop :=
  ∀ ss, (s.session ss).msg.capacity = 64 ∧ (s.session ss).msg.queue.length ≤ 64

theorem roomy_set {ss : Nat} {x : ScanSession} (hs : Roomy s) (hx : x.msg.capacity = 64)
    (hq : x.msg.queue.length ≤ 64) : Roomy (s.set ss x) := by
  intro ss'
  rw [set_session, Function.update_apply]
  split
  · exact ⟨hx, hq⟩
  · exact hs ss'

theorem roomy_go (h : Goes s t s') (hs : Roomy s) : Roomy s' := by
  cases h with
  | create hp => exact roomy_set (s := { s with mu := none, sessions := _ }) hs rfl (Nat.zero_le _)
  | receive hp hq =>
    obtain ⟨hcap, hlen⟩ := hs t.request
    rw [hq] at hlen
    exact roomy_set hs hcap (Nat.le_of_succ_le hlen)
  | @offer _ ss _ _ hp hm =>
    obtain ⟨hcap, hlen⟩ := hs ss
    obtain ⟨_, ⟨rfl, hroom⟩ | ⟨rfl, _⟩⟩ := Channel.offer_cases hm
    · refine roomy_set hs hcap ?_
      rw [List.length_append, List.length_singleton]
      omega
    · exact roomy_set hs hcap hlen
  | @delete ss hp => exact roomy_set (s := { s with mu := none, sessions := _ }) hs (hs ss).1 (hs ss).2
  | @lockSend _ ss | @drop _ ss | @lockClose ss | @closedAlready ss | @mark ss | @closeDone ss
  | @closeMsg ss => exact roomy_set hs (hs ss).1 (hs ss).2
  | _ => exact hs

structure Safe (s : State) : Prop where
  placed : Placed s
  mapLock : MapLock s
  sessionLocks : SessionLocks s
  roomy : Roomy s

theorem safe_initial : Safe initial where
  placed :=
    { made := by simp [initial, workedOn]
      registered := by simp [initial]
      fits := fun t => by cases t <;> trivial
      started := by simp [initial, Made, Behind] }
  mapLock := ⟨by simp [initial, heldSessions], by simp, by simp⟩
  sessionLocks :=
    { locks := by simp [initial, newSession, held]
      free := fun _ _ => ⟨rfl, rfl⟩
      knows := by simp [initial, newSession] }
  roomy := fun _ => ⟨rfl, Nat.zero_le _⟩

theorem safe_go (h : Goes s t s') (hs : Safe s) : Safe s' :=
  ⟨placed_go h hs.placed, mapLock_go h hs.placed hs.mapLock,
    sessionLocks_go h hs.placed hs.sessionLocks, roomy_go h hs.roomy⟩

/-- A step of a handler that has no lock and takes none. -/
theorem safe_aside {p : Position} (hposition : s'.position = update s.position t p)
    (hshift : Shift s t p) (hold : heldSessions (s.position t) = none ∧ held (s.position t) = none)
    (hnew : heldSessions p = none ∧ held p = none) (hmu : s'.mu = s.mu)
    (hsessions : s'.sessions = s.sessions) (hsession : s'.session = s.session) (hs : Safe s) :
    Safe s' where
  placed := placed_shift hposition hshift (fun _ _ h => hsessions ▸ h) hs.placed
  mapLock := by
    rw [MapLock, hposition, hmu]
    exact hs.mapLock.aside hold.1 hnew.1
  sessionLocks := by
    rw [SessionLocks, hposition, hsession]
    exact hs.sessionLocks.aside hold.2 hnew.2
  roomy := by
    rw [Roomy, hsession]
    exact hs.roomy

theorem safe_step {a : Action} (h : step s a = .moves s') (hs : Safe s) : Safe s' := by
  cases a with
  | go t now => exact safe_go (goes_of_go h) hs
  | disconnect r =>
    obtain rfl := Outcome.moves.inj h
    exact ⟨⟨hs.placed.made, hs.placed.registered, hs.placed.fits, hs.placed.started⟩, hs.mapLock,
      hs.sessionLocks, hs.roomy⟩
  | arrive r param query fresh =>
    simp only [step] at h
    split at h
    · rename_i hp
      obtain rfl := Outcome.moves.inj h
      refine safe_aside (s := s) rfl ⟨?_, fun _ => trivial, by simp, by simp [workedOn]⟩ ?_ ⟨rfl, rfl⟩ rfl
        rfl rfl hs
      · simp [Behind, hp]
      · rw [hp]
        exact ⟨rfl, rfl⟩
    · cases h
  | leave r =>
    simp only [step] at h
    split at h
    · rename_i hp
      obtain rfl := Outcome.moves.inj h
      refine safe_aside (s := s) rfl ⟨?_, fun _ => trivial, by simp, by simp [workedOn]⟩ ?_ ⟨rfl, rfl⟩ rfl
        rfl rfl hs
      · simp [Behind, hp.1]
      · rw [hp.1]
        exact ⟨rfl, rfl⟩
    · cases h
  | cancel r =>
    simp only [step] at h
    split at h
    · rename_i hp
      obtain rfl := Outcome.moves.inj h
      refine safe_aside rfl ⟨?_, fun _ => rfl, by simp, fun ss hss => ?_⟩ ?_ ⟨rfl, rfl⟩ rfl
        rfl rfl hs
      · simp [Behind, hp.1]
      · cases hss
        exact .inr (.inr ⟨rfl, by simp [Made, Behind, hp.1]⟩)
      · rw [hp.1]
        exact ⟨rfl, rfl⟩
    · cases h

theorem safe_of_reach {P : State → Action → Prop} (h : Reach step P initial s) : Safe s :=
  h.invariant safe_initial fun _ _ _ hs _ hstep => safe_step hstep hs

theorem map_ne_panics {σ τ : Type} {f : σ → τ} {o : Outcome σ} (h : o ≠ .panics) :
    o.map f ≠ .panics := by
  cases o with
  | panics => exact absurd rfl h
  | blocked => simp [Outcome.map]
  | moves a => simp [Outcome.map]

theorem lock_ne_panics (s : State) (t : Thread) (ss : Nat) (p : Position) :
    s.lock t ss p ≠ .panics := by
  unfold State.lock
  split <;> simp

theorem lockSessions_ne_panics (s : State) (t : Thread) (p : Position) :
    s.lockSessions t p ≠ .panics := by
  unfold State.lockSessions
  split <;> simp

/-- What a goroutine in a critical section of a session knows of it. -/
theorem Safe.known {ss : Nat} {p : Position} (hs : Safe s) (hp : s.position t = p)
    (hheld : held p = some ss) : Knows p (s.session ss) := by
  have howner := (hs.sessionLocks.locks ss t).mpr (by rw [hp, hheld])
  rw [← hp]
  exact hs.sessionLocks.knows ss t howner

theorem go_ne_panics (hs : Safe s) (t : Thread) (now : String) : s.go t now ≠ .panics := by
  unfold State.go
  cases hp : s.position t with
  | createSession | getSession => exact lockSessions_ne_panics s t _
  | streaming =>
    simp only
    split
    · simp
    · simp
    · simp
    · rename_i hr
      exact absurd hr (Channel.receive_ne_panics _)
  | send i ss data p =>
    cases p with
    | lock => exact lock_ne_panics s t ss _
    | test => simp [State.send]
    | offer =>
      obtain ⟨hopen, _, hmsg⟩ := hs.known hp rfl
      exact map_ne_panics (Channel.offer_ne_panics (hmsg.trans hopen) data)
  | close ss p =>
    cases p with
    | lock => exact lock_ne_panics s t ss _
    | lockSessions => exact lockSessions_ne_panics s t _
    | test | mark | delete => simp [State.close]
    | closeDone =>
      obtain ⟨_, hdone, _⟩ := hs.known hp rfl
      simp [State.close, hdone]
    | closeMsg =>
      obtain ⟨_, _, hmsg⟩ := hs.known hp rfl
      exact map_ne_panics (Channel.close_ne_panics hmsg)
  | _ => simp

theorem step_ne_panics (hs : Safe s) (a : Action) : step s a ≠ .panics := by
  cases a with
  | go t now => exact go_ne_panics hs t now
  | disconnect r => simp [step]
  | arrive r param query fresh | leave r | cancel r =>
    simp only [step]
    split <;> simp

/-- Whatever the clients do and however the goroutines are scheduled, nothing is sent on a
closed channel, no channel is closed twice or overfull, and no two goroutines are in the
critical sections of one session at once. -/
theorem streams_safe (h : Reach step (fun _ _ => True) initial s) :
    (∀ a, step s a ≠ .panics) ∧ (∀ ss, (s.session ss).msg.queue.length ≤ 64) ∧
      ∀ ss t u, held (s.position t) = some ss → held (s.position u) = some ss → t = u := by
  have hs := safe_of_reach h
  refine ⟨step_ne_panics hs, fun ss => (hs.roomy ss).2, fun ss t u ht hu => ?_⟩
  have ht' := (hs.sessionLocks.locks ss t).mpr ht
  have hu' := (hs.sessionLocks.locks ss u).mpr hu
  exact Option.some.inj (ht'.symm.trans hu')

theorem streams_safe_over :
    (∀ a, step served a ≠ .panics) ∧ (∀ ss, (served.session ss).msg.queue.length ≤ 64) ∧
      ∀ ss t u, held (served.position t) = some ss → held (served.position u) = some ss → t = u :=
  streams_safe (reach_over.mono fun _ _ _ => trivial)

end Safety

section Progress

/-- The goroutine that has the lock another one waits for. -/
def waitsFor (s : State) (t : Thread) : Option Thread :=
  match s.position t with
  | .createSession => s.mu
  | .getSession => s.mu
  | .close _ .lockSessions => s.mu
  | .send _ ss _ .lock => (s.session ss).mu
  | .close ss .lock => (s.session ss).mu
  | _ => none

/-- The lock of a session is taken before that of the map of sessions. -/
def rank : Position → Nat
  | .send _ _ _ .lock => 2
  | .close _ .lock => 2
  | .createSession => 1
  | .getSession => 1
  | .close _ .lockSessions => 1
  | _ => 0

/-- A goroutine that has started and not returned yet, and does not wait for an event. -/
def Active (s : State) (t : Thread) : Prop :=
  s.position t ≠ .idle ∧ s.position t ≠ .finished ∧
    (s.position t = .streaming →
      (s.session t.request).msg.queue ≠ [] ∨ (s.session t.request).msg.closed = true)

def Holds (p : Position) : Prop := heldSessions p = some () ∨ ∃ ss, held p = some ss

theorem rank_le_of_held {p : Position} {ss : Nat} (h : held p = some ss) : rank p < 2 := by
  cases p with
  | send _ _ _ q => cases q <;> simp_all [held, rank]
  | close _ q => cases q <;> simp_all [held, rank]
  | _ => cases h

theorem rank_of_heldSessions {p : Position} (h : heldSessions p = some ()) : rank p = 0 := by
  cases p with
  | close _ q => cases q <;> simp_all [heldSessions, rank]
  | create | get => rfl
  | _ => cases h

/-- A goroutine waits for one that is further on with its locks. -/
theorem rank_waitsFor {u : Thread} (hs : Safe s) (h : waitsFor s t = some u) :
    rank (s.position u) < rank (s.position t) ∧ Holds (s.position u) := by
  have hmap : s.mu = some u → rank (s.position u) < 1 ∧ Holds (s.position u) := by
    intro hmu
    have hheld := (hs.mapLock.locks () u).mp hmu
    exact ⟨by rw [rank_of_heldSessions hheld]; decide, .inl hheld⟩
  have hsession : ∀ ss, (s.session ss).mu = some u →
      rank (s.position u) < 2 ∧ Holds (s.position u) := by
    intro ss hmu
    have hheld := (hs.sessionLocks.locks ss u).mp hmu
    exact ⟨rank_le_of_held hheld, .inr ⟨ss, hheld⟩⟩
  unfold waitsFor at h
  cases hp : s.position t with
  | createSession | getSession =>
    rw [hp] at h
    exact hmap h
  | send i ss data q =>
    rw [hp] at h
    cases q with
    | lock => exact hsession ss h
    | test | offer => cases h
  | close ss q =>
    rw [hp] at h
    cases q with
    | lock => exact hsession ss h
    | lockSessions => exact hmap h
    | _ => cases h
  | _ =>
    rw [hp] at h
    cases h

theorem active_of_holds {p : Position} (h : Holds p) :
    p ≠ .idle ∧ p ≠ .finished ∧ p ≠ .streaming := by
  refine ⟨?_, ?_, ?_⟩ <;> rintro rfl <;> obtain h | ⟨_, h⟩ := h <;> cases h

theorem moves_of_not_waiting (hs : Safe s) (ht : Active s t) (hw : waitsFor s t = none)
    (now : String) : ∃ s', s.go t now = .moves s' := by
  obtain ⟨hidle, hfinished, hstream⟩ := ht
  unfold waitsFor at hw
  unfold State.go
  cases hp : s.position t with
  | idle => exact absurd hp hidle
  | finished => exact absurd hp hfinished
  | createSession | getSession =>
    rw [hp] at hw
    simp [State.lockSessions, hw]
  | streaming =>
    obtain hq | hc := hstream hp
    · obtain ⟨m, rest, hq⟩ := List.exists_cons_of_ne_nil hq
      simp [Channel.receive, hq]
    · cases hq : (s.session t.request).msg.queue <;> simp [Channel.receive, hq, hc]
  | send i ss data q =>
    rw [hp] at hw
    cases q with
    | lock => simp [State.send, State.lock, hw]
    | test => simp [State.send]
    | offer =>
      obtain ⟨hopen, _, hmsg⟩ := hs.known hp rfl
      have hclosed := hmsg.trans hopen
      by_cases hroom : (s.session ss).msg.queue.length < (s.session ss).msg.capacity <;>
        simp [State.send, Channel.offer, hclosed, hroom, Outcome.map]
  | close ss q =>
    rw [hp] at hw
    cases q with
    | lock => simp [State.close, State.lock, hw]
    | lockSessions => simp [State.close, State.lockSessions, hw]
    | closeDone =>
      obtain ⟨_, hdone, _⟩ := hs.known hp rfl
      simp [State.close, hdone]
    | closeMsg =>
      obtain ⟨_, _, hmsg⟩ := hs.known hp rfl
      simp [State.close, Channel.close, hmsg, Outcome.map]
    | _ => simp [State.close]
  | _ => simp

/-- No goroutine is ever stuck: one that has something to do can go on, or waits, directly or
through another one, for a goroutine that can. -/
theorem goroutine_or_holder_moves (h : Reach step (fun _ _ => True) initial s) (t : Thread)
    (ht : Active s t) (now : String) :
    ∃ u, Relation.ReflTransGen (fun t u => waitsFor s t = some u) t u ∧
      ∃ s', s.go u now = .moves s' := by
  have hs := safe_of_reach h
  obtain ⟨u, hchain, hend⟩ := exists_not_waiting (waitsFor s) (fun t => rank (s.position t))
    (fun _ _ hw => (rank_waitsFor hs hw).1) t
  refine ⟨u, hchain, moves_of_not_waiting hs ?_ hend now⟩
  obtain rfl | ⟨w, _, hw⟩ := Relation.ReflTransGen.cases_tail hchain
  · exact ht
  · obtain ⟨hidle, hfinished, hstream⟩ := active_of_holds (rank_waitsFor hs hw).2
    exact ⟨hidle, hfinished, fun heq => absurd heq hstream⟩

/-- Two requests, the second of which waits for the lock that the first one holds. -/
def crowded : State :=
  { asked 1 "b" (asked 0 "a" initial) with mu := some (.handler 0) }.move (.handler 0) .create

theorem reach_crowded : Reach step (fun _ _ => True) initial crowded :=
  .next (.go (.handler 0) "") (.next (.arrive 1 "b" "" "") (.next (.arrive 0 "a" "" "") .start
    trivial rfl) trivial rfl) trivial rfl

theorem goroutine_or_holder_moves_crowded :
    ∃ u, Relation.ReflTransGen (fun t u => waitsFor crowded t = some u) (.handler 1) u ∧
      ∃ s', crowded.go u "12:00" = .moves s' :=
  goroutine_or_holder_moves reach_crowded (.handler 1)
    ⟨by decide +kernel, by decide +kernel, by decide +kernel⟩ "12:00"

end Progress

end RivicQ.Properties.ScanStreams
