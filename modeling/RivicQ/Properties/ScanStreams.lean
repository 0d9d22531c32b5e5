import RivicQ.Properties.StreamSafety

namespace RivicQ.Properties.ScanStreams

open Function (update update_self update_of_ne)
open RivicQ.Lib.Channels RivicQ.Lib.Locks RivicQ.Lib.EventStreams RivicQ.Lib.JSONText
open RivicQ.Shared.Events RivicQ.Shared.Events.State

variable {s s' : State} {t : Thread}

section Apart

/-- A goroutine that has closed a session and has not deleted it yet. -/
def Ending (ss : Nat) (p : Position) : Prop :=
  p = .close ss .closeDone ∨ p = .close ss .closeMsg ∨ p = .close ss .lockSessions ∨
    p = .close ss .delete

/-- A session that the map may name: somebody still works on it. -/
def Current (s : State) (ss : Nat) : Prop :=
  ((s.session ss).closed = false ∧ Running (s.position (.simulator ss))) ∨
    ∃ t, t.request = ss ∧ Ending ss (s.position t)

structure Own (s : State) : Prop where
  apart : ∀ t u, Running (s.position t) → Running (s.position u) →
    s.scanID t.request = s.scanID u.request → t.request = u.request
  own : ∀ t ss, workedOn (s.position t) = some ss → ss = t.request
  current : ∀ id ss, s.sessions id = some ss → s.scanID ss = id ∧ Current s ss
  kept : ∀ r, Made s r → (s.session r).closed = false → s.sessions (s.scanID r) = some r

theorem Ending.running {ss : Nat} {p : Position} (h : Ending ss p) : Running p := by
  obtain rfl | rfl | rfl | rfl := h <;> simp [Running]

theorem Current.running {ss : Nat} (h : Current s ss) :
    ∃ t, t.request = ss ∧ Running (s.position t) := by
  obtain ⟨_, hrun⟩ | ⟨t, ht, hend⟩ := h
  · exact ⟨.simulator ss, rfl, hrun⟩
  · exact ⟨t, ht, hend.running⟩

theorem running_of_goes (h : Goes s t s') : Running (s.position t) := by
  cases h with
  | stopped hp _ => obtain ⟨_, hp⟩ | ⟨_, hp⟩ := hp <;> simp [Running, hp]
  | stage _ hp => simp [Running, hp]
  | _ hp => simp [Running, hp]

/-- A goroutine that goes on has been running. -/
theorem running_go (h : Goes s t s') {u : Thread} (hu : Running (s'.position u)) :
    ∃ v, v.request = u.request ∧ Running (s.position v) := by
  have ht := running_of_goes h
  obtain ⟨_, hposition, _⟩ | ⟨⟨p, hposition, _⟩, _⟩ := shift_go h
  · rw [hposition, Function.update_apply] at hu
    split at hu
    · rename_i hu'
      exact ⟨t, by rw [hu']; rfl, ht⟩
    · rw [Function.update_apply] at hu
      split at hu
      · rename_i hu'
        exact ⟨t, by rw [hu'], ht⟩
      · exact ⟨u, rfl, hu⟩
  · rw [hposition, Function.update_apply] at hu
    split at hu
    · rename_i hu'
      exact ⟨t, by rw [hu'], ht⟩
    · exact ⟨u, rfl, hu⟩

theorem scanID_go (h : Goes s t s') : s'.scanID = s.scanID := by cases h <;> rfl

theorem closed_of_settled {x : ScanSession} (h : Settled x)
    (hx : x.done = true ∨ x.msg.closed = true) : x.closed = true :=
  hx.elim h.1.symm.trans h.2.symm.trans

/-- A session whose channels are closed is marked as closed. -/
theorem closed_of_knows {p : Position} {x : ScanSession} (h : Knows p x)
    (hx : x.done = true ∨ x.msg.closed = true) : x.closed = true := by
  cases p with
  | send _ _ _ q =>
    cases q with
    | offer => exact closed_of_settled h.2 hx
    | lock | test => exact closed_of_settled h hx
  | close _ q =>
    cases q with
    | mark => exact closed_of_settled h.2 hx
    | lock | test => exact closed_of_settled h hx
    | closeDone | closeMsg | lockSessions | delete => exact h.1
  | _ => exact closed_of_settled h hx

theorem closed_of_done (hs : Safe s) {ss : Nat}
    (h : (s.session ss).done = true ∨ (s.session ss).msg.closed = true) :
    (s.session ss).closed = true := by
  cases hmu : (s.session ss).mu with
  | none => exact closed_of_settled (hs.sessionLocks.free ss hmu) h
  | some u => exact closed_of_knows (hs.sessionLocks.knows ss u hmu) h

theorem current_move {p : Position} {ss : Nat} (hposition : s'.position = update s.position t p)
    (hclosed : (s'.session ss).closed = (s.session ss).closed)
    (hrun : Running p ∨ t ≠ .simulator ss ∨ (s.session ss).closed = true)
    (hend : Ending ss (s.position t) → Ending ss p) (h : Current s ss) : Current s' ss := by
  obtain ⟨hopen, hsim⟩ | ⟨u, hu, hu'⟩ := h
  · refine .inl ⟨hclosed.trans hopen, ?_⟩
    rw [hposition, Function.update_apply]
    split
    · rename_i ht
      obtain hrun | hne | hc := hrun
      · exact hrun
      · exact absurd ht.symm hne
      · rw [hopen] at hc
        cases hc
    · exact hsim
  · refine .inr ⟨u, hu, ?_⟩
    rw [hposition, Function.update_apply]
    split
    · rename_i hut
      rw [hut] at hu'
      exact hend hu'
    · exact hu'

theorem running_sent (i ss : Nat) : Running (sent i ss) := by
  unfold sent
  split <;> simp [Running]

theorem closed_update {ss : Nat} {x : ScanSession} (hx : x.closed = (s.session ss).closed)
    (ss' : Nat) : (update s.session ss x ss').closed = (s.session ss').closed := by
  rw [Function.update_apply]
  split
  · rename_i h
    rw [hx, h]
  · rfl

theorem handler_of_streaming (hs : Placed s) (hp : s.position t = .streaming) :
    t = .handler t.request := by
  have hfits := hs.fits t
  rw [hp] at hfits
  cases t with
  | handler r => rfl
  | simulator r => cases hfits

/-- The session of a name stays current while it is named. -/
theorem current_go (h : Goes s t s') (hs : Safe s) (ho : Own s) {ss : Nat}
    (hss : s.sessions (s.scanID ss) = some ss) (hss' : s'.sessions (s.scanID ss) = some ss)
    (hcur : Current s ss) : Current s' ss := by
  cases h with
  | create hp =>
    obtain ⟨ht, hidle, hmade⟩ := hs.placed.create hp
    have hne : ss ≠ t.request := by
      rintro rfl
      exact hmade (hs.placed.registered _ _ hss)
    obtain ⟨hopen, hsim⟩ | ⟨u, hu, hend⟩ := hcur
    · left
      simp only [session_move, set_session, position_move, set_position]
      rw [update_of_ne hne, update_of_ne (by simpa using hne), update_of_ne (by rw [ht]; simp)]
      exact ⟨hopen, hsim⟩
    · refine .inr ⟨u, hu, ?_⟩
      have hut : u ≠ t := by
        rintro rfl
        exact hne hu.symm
      have hus : u ≠ .simulator t.request := by
        rintro rfl
        exact hne hu.symm
      simp only [position_move, set_position]
      rw [update_of_ne hus, update_of_ne hut]
      exact hend
  | missing hp hmissing =>
    refine current_move (s := s) (p := .finished) rfl rfl (.inr (.inl ?_)) (by simp [Ending, hp]) hcur
    rintro rfl
    rw [Thread.request, hss] at hmissing
    cases hmissing
  | @stopped ss' hp hd =>
    refine current_move (s := s) (p := .finished) rfl rfl (.inr ?_) ?_ hcur
    · refine or_iff_not_imp_left.mpr fun ht => ?_
      have hown : ss' = t.request := by
        refine ho.own t ss' ?_
        obtain ⟨_, hp⟩ | ⟨_, hp⟩ := hp <;> rw [hp] <;> rfl
      rw [not_not.mp ht, Thread.request] at hown
      rw [← hown]
      exact closed_of_done hs (.inl hd)
    · obtain ⟨_, hp⟩ | ⟨_, hp⟩ := hp <;> simp [Ending, hp]
  | @closedAlready ss' hp hc =>
    refine current_move (s := s) (p := .finished) rfl (closed_update (s := s) (by rfl) ss) (.inr ?_)
      (by simp [Ending, hp]) hcur
    refine or_iff_not_imp_left.mpr fun ht => ?_
    have hown : ss' = t.request := ho.own t ss' (by rw [hp]; rfl)
    rw [not_not.mp ht, Thread.request] at hown
    rw [← hown]
    exact hc
  | @mark ss' hp =>
    by_cases hne : ss = ss'
    · subst hne
      refine .inr ⟨t, (ho.own t ss (by rw [hp]; rfl)).symm, .inl ?_⟩
      simp
    · refine current_move (s := s) rfl ?_ (.inl (by simp [Running])) (by simp [Ending, hp]) hcur
      simp [update_of_ne hne]
  | @delete ss' hp =>
    have hne : ss ≠ ss' := by
      rintro rfl
      simp only [sessions_move] at hss'
      change update s.sessions (s.scanID ss) none (s.scanID ss) = some ss at hss'
      rw [update_self] at hss'
      cases hss'
    have hown : ss' = t.request := ho.own t ss' (by rw [hp]; rfl)
    refine current_move (s := s) (p := .finished) rfl (closed_update (s := s) (by rfl) ss)
      (.inr (.inl ?_)) (by simp [Ending, hp, hne.symm]) hcur
    rintro rfl
    exact hne hown.symm
  | receive hp hq =>
    refine current_move (s := s) (t := t) (p := .streaming) ?_ (closed_update (s := s) (by rfl) ss)
      (.inl (by simp [Running])) (by simp [Ending, hp]) hcur
    exact (Function.update_eq_self_iff.mpr hp.symm).symm
  | drained hp hq hc =>
    refine current_move (s := s) (p := .finished) rfl rfl (.inr (.inl ?_)) (by simp [Ending, hp]) hcur
    rw [handler_of_streaming hs.placed hp]
    simp
  | drop hp hc | offer hp hm =>
    exact current_move (s := s) rfl (closed_update (s := s) (by rfl) ss) (.inl (running_sent _ _))
      (by simp [Ending, hp]) hcur
  | lockCreate hp | lockGet hp | get hp | sleep hp | test hp | begin hp | lockDelete hp =>
    exact current_move (s := s) rfl rfl (.inl (by simp [Running])) (by simp [Ending, hp]) hcur
  | lockSend hp | lockClose hp | closeDone hp | closeMsg hp =>
    exact current_move (s := s) rfl (closed_update (s := s) (by rfl) ss) (.inl (by simp [Running]))
      (by simp [Ending, hp]) hcur
  | stage _ hp =>
    exact current_move (s := s) rfl rfl (.inl (by simp [Running])) (by simp [Ending, hp]) hcur

theorem apart_go (h : Goes s t s') (ho : Own s) (u v : Thread) (hu : Running (s'.position u))
    (hv : Running (s'.position v)) (heq : s'.scanID u.request = s'.scanID v.request) :
    u.request = v.request := by
  obtain ⟨u', hu', hrun⟩ := running_go h hu
  obtain ⟨v', hv', hrun'⟩ := running_go h hv
  rw [scanID_go h, ← hu', ← hv'] at heq
  rw [← hu', ← hv']
  exact ho.apart u' v' hrun hrun' heq

/-- A session that the map names is that of a request whose scan has this name. -/
theorem Own.request_eq {ss : Nat} (ho : Own s) (ht : Running (s.position t))
    (hss : s.sessions (s.scanID t.request) = some ss) : ss = t.request := by
  obtain ⟨hid, hcur⟩ := ho.current _ ss hss
  obtain ⟨u, rfl, hu⟩ := hcur.running
  exact ho.apart u t hu ht hid

theorem own_shift {p : Position} (hposition : s'.position = update s.position t p)
    (hshift : Shift s t p) (ho : Own s) (ht : Running (s.position t) ∨ workedOn p = none)
    (u : Thread) (ss : Nat) (hss : workedOn (s'.position u) = some ss) : ss = u.request := by
  rw [hposition, Function.update_apply] at hss
  split at hss
  · rename_i hu
    rw [hu]
    obtain ht | hnone := ht
    · obtain hss | hss | ⟨hss, _⟩ := hshift.worked ss hss
      · exact ho.own t ss hss
      · exact ho.request_eq ht hss
      · exact hss
    · rw [hnone] at hss
      cases hss
  · exact ho.own u ss hss

theorem created (h : Goes s t s') (hp : s.position t = .create) :
    s' = (({ s with
      mu := none
      sessions := update s.sessions (s.scanID t.request) (some t.request) }.set t.request
        newSession).move t .streaming).move (.simulator t.request) .getSession := by
  cases h with
  | create => rfl
  | stopped hp' _ => obtain ⟨_, hp'⟩ | ⟨_, hp'⟩ := hp' <;> simp [hp'] at hp
  | stage _ hp' => simp [hp'] at hp
  | _ hp' => simp [hp'] at hp

theorem own_create (h : Goes s t s') (hp : s.position t = .create) (hs : Safe s) (ho : Own s) :
    Own s' := by
  have hapart := apart_go h ho
  have hcurrent := fun ss => @current_go _ _ _ h hs ho ss
  obtain ⟨ht, hidle, hmade⟩ := hs.placed.create hp
  have hrun : Running (s.position t) := by simp [Running, hp]
  obtain rfl := created h hp
  refine ⟨hapart, fun u ss hss => ?_, fun id ss hss => ?_, fun r hr hopen => ?_⟩
  · simp only [position_move, set_position, Function.update_apply] at hss
    split at hss
    · cases hss
    · split at hss
      · cases hss
      · exact ho.own u ss hss
  · have hss' := hss
    change update s.sessions (s.scanID t.request) (some t.request) id = some ss at hss'
    rw [Function.update_apply] at hss'
    split at hss'
    · rename_i hid
      obtain rfl := Option.some.inj hss'
      refine ⟨hid.symm, .inl ⟨?_, ?_⟩⟩
      · simp [newSession]
      · simp [Running]
    · obtain ⟨rfl, hcur⟩ := ho.current id ss hss'
      exact ⟨rfl, hcurrent ss hss' hss hcur⟩
  · change update s.sessions (s.scanID t.request) (some t.request) (s.scanID r) = some r
    by_cases hne : r = t.request
    · rw [hne, update_self]
    · have hr' : Made s r := by
        simp only [Made, position_move, set_position] at hr
        rw [update_of_ne (by simp), update_of_ne (by rw [ht]; simpa using hne)] at hr
        exact hr
      have hopen' : (s.session r).closed = false := by
        simp only [session_move, set_session] at hopen
        rwa [update_of_ne hne] at hopen
      have hkept := ho.kept r hr' hopen'
      rw [update_of_ne]
      · exact hkept
      · intro heq
        rw [heq] at hkept
        exact hne (ho.request_eq hrun hkept)

theorem closed_go (h : Goes s t s') (hp : s.position t ≠ .create) {r : Nat}
    (hr : (s.session r).closed = true) : (s'.session r).closed = true := by
  cases h with
  | create hp' => exact absurd hp' hp
  | receive hp | lockSend hp | drop hp | offer hp | lockClose hp | closedAlready hp | closeDone hp
  | closeMsg hp | delete hp => exact (closed_update (s := s) (by rfl) r).trans hr
  | @mark ss hp =>
    simp only [session_move, set_session, Function.update_apply]
    split
    · rfl
    · exact hr
  | _ => exact hr

theorem sessions_go (h : Goes s t s') (hp : s.position t ≠ .create) :
    s'.sessions = s.sessions ∨
      ∃ ss, s.position t = .close ss .delete ∧ s'.sessions = update s.sessions (s.scanID ss) none := by
  cases h with
  | create hp' => exact absurd hp' hp
  | @delete ss hp => exact .inr ⟨ss, hp, rfl⟩
  | _ => exact .inl rfl

theorem own_go (h : Goes s t s') (hs : Safe s) (ho : Own s) : Own s' := by
  by_cases hne : s.position t = .create
  · exact own_create h hne hs ho
  have ht := running_of_goes h
  have hid := scanID_go h
  obtain ⟨hp, _⟩ | ⟨⟨p, hposition, hshift⟩, hsessions⟩ := shift_go h
  · exact absurd hp hne
  refine ⟨apart_go h ho, own_shift hposition hshift ho (.inl ht), fun id ss hss => ?_,
    fun r hr hopen => ?_⟩
  · obtain ⟨rfl, hcur⟩ := ho.current id ss (hsessions id ss hss)
    exact ⟨by rw [hid], current_go h hs ho (hsessions _ ss hss) hss hcur⟩
  · rw [made_shift hposition hshift] at hr
    have hopen' : (s.session r).closed = false := by
      by_contra hc
      rw [closed_go h hne (by simpa using hc)] at hopen
      cases hopen
    have hkept := ho.kept r hr hopen'
    rw [hid]
    obtain hsame | ⟨ss, hp, hdel⟩ := sessions_go h hne
    · rw [hsame, hkept]
    · rw [hdel, Function.update_apply]
      split
      · rename_i heq
        have hss : ss = t.request := ho.own t ss (by rw [hp]; rfl)
        rw [heq, hss] at hkept
        have hr' := ho.request_eq ht hkept
        obtain ⟨hclosed, _⟩ := hs.known hp rfl
        rw [hss, ← hr', hopen'] at hclosed
        cases hclosed
      · exact hkept

/-- A handler that stops waiting for events. -/
theorem own_hangUp {r : Nat} {p : Position} (hp : s.position (.handler r) = .streaming)
    (hshift : Shift s (.handler r) p) (ho : Own s) : Own (s.move (.handler r) p) := by
  have hrun : Running (s.position (.handler r)) := by simp [Running, hp]
  have hback : ∀ u, Running ((s.move (.handler r) p).position u) → Running (s.position u) := by
    intro u hu
    rw [position_move, Function.update_apply] at hu
    split at hu
    · rename_i heq
      rw [heq]
      exact hrun
    · exact hu
  refine ⟨fun u v hu hv => ho.apart u v (hback u hu) (hback v hv), own_shift rfl hshift ho (.inl hrun),
    fun id ss hss => ?_, fun r' hr hopen => ?_⟩
  · obtain ⟨hid, hcur⟩ := ho.current id ss hss
    exact ⟨hid, current_move (s := s) rfl rfl (.inr (.inl (by simp))) (by simp [Ending, hp]) hcur⟩
  · rw [made_shift (s := s) rfl hshift] at hr
    exact ho.kept r' hr hopen

theorem own_arrive {r : Nat} {id : String} (hp : s.position (.handler r) = .idle)
    (hfresh : ∀ t, Running (s.position t) → s.scanID t.request ≠ id) (hs : Safe s) (ho : Own s) :
    Own ({ s with scanID := update s.scanID r id }.move (.handler r) .createSession) := by
  have hmade : ¬ Made s r := fun h => h.1 hp
  have hidle := (hs.placed.started r).mpr hmade
  have hback : ∀ u, u ≠ .handler r → Running (update s.position (.handler r) .createSession u) →
      Running (s.position u) ∧ u.request ≠ r := by
    intro u hne hu
    rw [update_of_ne hne] at hu
    refine ⟨hu, ?_⟩
    rintro rfl
    cases u with
    | handler r => exact hne rfl
    | simulator r => exact hu.1 hidle
  have hother : ∀ ss, Made s ss → ss ≠ r := by
    rintro ss hss rfl
    exact hmade hss
  refine ⟨fun u v hu hv heq => ?_, fun u ss hss => ?_, fun id' ss hss => ?_, fun r' hr hopen => ?_⟩
  · simp only [position_move] at hu hv
    change update s.scanID r id u.request = update s.scanID r id v.request at heq
    by_cases hu' : u = .handler r
    · by_cases hv' : v = .handler r
      · rw [hu', hv']
      · obtain ⟨hrun, hne⟩ := hback v hv' hv
        rw [hu', Thread.request, update_self, update_of_ne hne] at heq
        exact absurd heq.symm (hfresh v hrun)
    · obtain ⟨hrun, hne⟩ := hback u hu' hu
      by_cases hv' : v = .handler r
      · rw [hv', Thread.request, update_self, update_of_ne hne] at heq
        exact absurd heq (hfresh u hrun)
      · obtain ⟨hrun', hne'⟩ := hback v hv' hv
        rw [update_of_ne hne, update_of_ne hne'] at heq
        exact ho.apart u v hrun hrun' heq
  · simp only [position_move, Function.update_apply] at hss
    split at hss
    · cases hss
    · exact ho.own u ss hss
  · obtain ⟨hid, hcur⟩ := ho.current id' ss hss
    have hne := hother ss (hs.placed.registered id' ss hss)
    refine ⟨(update_of_ne hne _ _).trans hid, ?_⟩
    exact current_move (s := s) rfl rfl (.inl (by simp [Running])) (by simp [Ending, hp]) hcur
  · have hr' : Made s r' := by
      simp only [Made, position_move, Function.update_apply] at hr
      split at hr
      · exact absurd rfl hr.2.1
      · exact hr
    change s.sessions (update s.scanID r id r') = some r'
    rw [update_of_ne (hother r' hr')]
    exact ho.kept r' hr' hopen

end Apart

section Contents

/-- The events of a scan, as the clock stood when each of them was made. -/
def events (id : String) (clock : List String) : List String :=
  clock.mapIdx fun i now => marshal (evt id i now)

/-- What the client of a scan is sent. -/
def transcript (id : String) (clock : List String) : List String :=
  (events id clock).map progressFrame ++
    if clock.length = stages.length + 1 then [doneFrame id] else []

/-- How many events a simulator has sent. -/
def count : Position → Nat
  | .stage i _ => i
  | .send i _ _ _ => i
  | .sleep i _ => i + 1
  | .close _ _ => stages.length + 1
  | _ => 0

theorem count_sent {i ss : Nat} (h : i ≤ stages.length) : count (sent i ss) = i + 1 := by
  unfold sent
  split
  · rfl
  · exact congrArg (· + 1) (by omega)

/-- Where a simulator can be with its events. -/
def Sends (id : String) : Position → Prop
  | .stage i _ => i ≤ stages.length
  | .send i _ data _ => i ≤ stages.length ∧ ∃ now, data = marshal (evt id i now)
  | .sleep i _ => i < stages.length
  | _ => True

theorem sends_sent (id : String) (i ss : Nat) : Sends id (sent i ss) := by
  unfold sent
  split
  · assumption
  · trivial

/-- The events of a stream so far, those among them that have been received, and what was
written after them. -/
structure Delivers (id : String) (x : ScanSession) (handler simulator : Position) (gone : Bool)
    (body clock got last : List String) : Prop where
  body : body = got.map progressFrame ++ last
  queue : got ++ x.msg.queue = events id clock
  counted : x.closed = false → clock.length = count simulator
  ended : x.closed = true → handler = .streaming → clock.length = stages.length + 1
  rest : last = [] ∨ last = [doneFrame id] ∧ x.msg.queue = [] ∧ clock.length = stages.length + 1 ∧
    handler = .finished
  finished : handler = .finished → gone = false → last ≠ []
  length : clock.length ≤ stages.length + 1

variable {id : String} {x x' : ScanSession} {handler handler' simulator simulator' : Position}
  {gone gone' : Bool} {body clock got last : List String}

theorem Delivers.keep (h : Delivers id x handler simulator gone body clock got last)
    (hclosed : x'.closed = x.closed) (hqueue : x'.msg.queue = x.msg.queue)
    (hcount : x.closed = false → count simulator' = count simulator)
    (hhandler : handler' = handler ∨ handler' ≠ .streaming ∧ handler ≠ .finished ∧ gone = true) :
    Delivers id x' handler' simulator' gone body clock got last where
  body := h.body
  queue := hqueue ▸ h.queue
  counted := fun hopen => (h.counted (hclosed ▸ hopen)).trans (hcount (hclosed ▸ hopen)).symm
  ended := fun hc hs => by
    obtain rfl | ⟨hne, _, _⟩ := hhandler
    · exact h.ended (hclosed ▸ hc) hs
    · exact absurd hs hne
  rest := by
    rw [hqueue]
    obtain ht | ⟨ht, hq, hlen, hfin⟩ := h.rest
    · exact .inl ht
    · obtain rfl | ⟨_, hne, _⟩ := hhandler
      · exact .inr ⟨ht, hq, hlen, hfin⟩
      · exact absurd hfin hne
  finished := fun hfin hgone => by
    obtain rfl | ⟨_, _, hg⟩ := hhandler
    · exact h.finished hfin hgone
    · rw [hgone] at hg
      cases hg
  length := h.length

/-- The session is closed, when all events have been sent or the client has gone. -/
theorem Delivers.mark (h : Delivers id x handler simulator gone body clock got last)
    (hopen : x.closed = false) (hclosed : x'.closed = true) (hqueue : x'.msg.queue = x.msg.queue)
    (hhandler : handler' = handler ∨ handler' ≠ .streaming ∧ handler ≠ .finished ∧ gone = true)
    (hall : handler' = .streaming → count simulator = stages.length + 1) :
    Delivers id x' handler' simulator' gone body clock got last where
  body := h.body
  queue := hqueue ▸ h.queue
  counted := fun hc => by
    rw [hclosed] at hc
    cases hc
  ended := fun _ hs => (h.counted hopen).trans (hall hs)
  rest :=
    have hkept : Delivers id { x with msg := x'.msg } handler' simulator gone body clock got last :=
      h.keep rfl hqueue (fun _ => rfl) hhandler
    hkept.rest
  finished :=
    have hkept : Delivers id { x with msg := x'.msg } handler' simulator gone body clock got last :=
      h.keep rfl hqueue (fun _ => rfl) hhandler
    hkept.finished
  length := h.length

structure Streams (s : State) : Prop where
  sends : ∀ r, Sends (s.scanID r) (s.position (.simulator r))
  hungUp : ∀ r ss q, s.position (.handler r) = .close ss q → s.gone r = true
  blank : ∀ r, ¬ Made s r → s.body r = []
  delivers : ∀ r, Made s r → ∃ clock got last, Delivers (s.scanID r) (s.session r)
    (s.position (.handler r)) (s.position (.simulator r)) (s.gone r) (s.body r) clock got last

theorem gone_go (h : Goes s t s') : s'.gone = s.gone := by cases h <;> rfl

theorem position_other (h : Goes s t s') {u : Thread} (hu : u.request ≠ t.request) :
    s'.position u = s.position u := by
  have hut : u ≠ t := by
    rintro rfl
    exact hu rfl
  obtain ⟨_, hposition, _⟩ | ⟨⟨p, hposition, _⟩, _⟩ := shift_go h
  · have hus : u ≠ .simulator t.request := by
      rintro rfl
      exact hu rfl
    rw [hposition, update_of_ne hus, update_of_ne hut]
  · rw [hposition, update_of_ne hut]

/-- A goroutine changes the session of its own request only. -/
theorem session_other (h : Goes s t s') (ho : Own s) {r : Nat} (hr : r ≠ t.request) :
    s'.session r = s.session r := by
  have hown : ∀ {p ss}, s.position t = p → workedOn p = some ss → r ≠ ss := by
    rintro p ss rfl hp rfl
    exact hr (ho.own t r hp)
  cases h with
  | create hp | receive hp => exact update_of_ne hr _ _
  | lockSend hp | drop hp | offer hp | lockClose hp | closedAlready hp | mark hp | closeDone hp
  | closeMsg hp | delete hp => exact update_of_ne (hown hp rfl) _ _
  | _ => rfl

theorem body_other (h : Goes s t s') {r : Nat} (hr : r ≠ t.request) : s'.body r = s.body r := by
  cases h with
  | receive hp | drained hp => exact update_of_ne hr _ _
  | _ => rfl

/-- What the stream of a request is after a step. -/
def Delivered (s : State) (r : Nat) : Prop :=
  ∃ clock got last, Delivers (s.scanID r) (s.session r) (s.position (.handler r))
    (s.position (.simulator r)) (s.gone r) (s.body r) clock got last

theorem delivered_create {r : Nat} (h : Goes s (.handler r) s')
    (hp : s.position (.handler r) = .create) (hst : Streams s) : Delivered s' r := by
  have hblank := hst.blank r fun hmade => hmade.2.2 hp
  obtain rfl := created h hp
  refine ⟨[], [], [], ?_⟩
  exact
    { body := by
        change s.body r = []
        exact hblank
      queue := by simp [Thread.request, newSession, events, Channel.make]
      counted := by simp [Thread.request, count]
      ended := by simp [Thread.request, newSession]
      rest := .inl rfl
      finished := by simp [Thread.request]
      length := Nat.zero_le _ }

theorem delivered_receive {r : Nat} {m : String} {rest : List String}
    (hp : s.position (.handler r) = .streaming) (hq : (s.session r).msg.queue = m :: rest)
    (h : Delivered s r) :
    Delivered ((s.set r { s.session r with
      msg := { (s.session r).msg with queue := rest } }).write r (progressFrame m)) r := by
  obtain ⟨clock, got, last, h⟩ := h
  have hlast : last = [] := by
    obtain hlast | ⟨_, _, _, hfin⟩ := h.rest
    · exact hlast
    · rw [hp] at hfin
      cases hfin
  refine ⟨clock, got ++ [m], [], ?_⟩
  exact
    { body := by
        change update s.body r (s.body r ++ [progressFrame m]) r = _
        rw [update_self, h.body, hlast]
        simp
      queue := by
        simp only [write_session, set_session, update_self, List.append_assoc, List.singleton_append]
        rw [← hq]
        exact h.queue
      counted := by
        simp only [write_session, set_session, update_self]
        exact h.counted
      ended := by
        simp only [write_session, set_session, update_self]
        exact h.ended
      rest := .inl rfl
      finished := fun hfin => by
        change s.position (.handler r) = .finished at hfin
        rw [hp] at hfin
        cases hfin
      length := h.length }

theorem delivered_drained {r : Nat} (hs : Safe s) (hp : s.position (.handler r) = .streaming)
    (hq : (s.session r).msg.queue = []) (hc : (s.session r).msg.closed = true)
    (h : Delivered s r) :
    Delivered ((s.write r (doneFrame (s.scanID r))).move (.handler r) .finished) r := by
  obtain ⟨clock, got, last, h⟩ := h
  have hlast : last = [] := by
    obtain hlast | ⟨_, _, _, hfin⟩ := h.rest
    · exact hlast
    · rw [hp] at hfin
      cases hfin
  have hclosed := closed_of_done hs (.inr hc)
  have hlen := h.ended hclosed hp
  refine ⟨clock, got, [doneFrame (s.scanID r)], ?_⟩
  exact
    { body := by
        change update s.body r (s.body r ++ [doneFrame (s.scanID r)]) r = _
        rw [update_self, h.body, hlast]
        simp
      queue := h.queue
      counted := fun hopen => by
        change (s.session r).closed = false at hopen
        rw [hclosed] at hopen
        cases hopen
      ended := fun _ _ => hlen
      rest := .inr ⟨rfl, hq, hlen, by simp⟩
      finished := fun _ _ => by simp
      length := h.length }

theorem delivered_handler {r : Nat} (h : Goes s (.handler r) s') (hs : Safe s) (hst : Streams s)
    (hmade : Made s' r) : Delivered s' r := by
  have hfits := hs.placed.fits (.handler r)
  have hold : Behind (s.position (.handler r)) → Delivered s r := hst.delivers r
  cases h with
  | create hp => exact delivered_create (.create hp) hp hst
  | receive hp hq => exact delivered_receive hp hq (hold (by simp [Behind, hp]))
  | drained hp hq hc => exact delivered_drained hs hp hq hc (hold (by simp [Behind, hp]))
  | lockCreate hp hmu => simp [Made, Behind] at hmade
  | @lockClose ss hp hmu | @closedAlready ss hp hc | @begin ss hp hc | @closeDone ss hp | @closeMsg ss hp
  | @lockDelete ss hp hmu | @delete ss hp =>
    obtain rfl : ss = r := by
      rw [hp] at hfits
      exact hfits
    obtain ⟨clock, got, last, h⟩ := hold (by simp [Behind, hp])
    refine ⟨clock, got, last, h.keep (by simp) (by simp) (fun _ => by simp) (.inr ⟨by simp, ?_, ?_⟩)⟩
    · simp [hp]
    · exact hst.hungUp ss ss _ hp
  | @mark ss hp =>
    obtain rfl : ss = r := by
      rw [hp] at hfits
      exact hfits
    obtain ⟨clock, got, last, h⟩ := hold (by simp [Behind, hp])
    have hopen := (hs.known hp rfl).1
    refine ⟨clock, got, last, h.mark hopen (by simp) (by simp) (.inr ⟨by simp, ?_, ?_⟩) (by simp)⟩
    · simp [hp]
    · exact hst.hungUp ss ss _ hp
  | stopped hp hd =>
    obtain ⟨_, hp⟩ | ⟨_, hp⟩ := hp <;> rw [hp] at hfits <;> cases hfits
  | stage _ hp =>
    rw [hp] at hfits
    cases hfits
  | _ hp =>
    rw [hp] at hfits
    cases hfits

theorem events_concat (id : String) (clock : List String) (now : String) :
    events id (clock ++ [now]) = events id clock ++ [marshal (evt id clock.length now)] := by
  simp [events, List.mapIdx_append]

theorem length_events (id : String) (clock : List String) :
    (events id clock).length = clock.length := by
  simp [events]

/-- There is always room for the next event. -/
theorem delivered_offer {r i : Nat} {data : String} {msg : Channel String}
    (hs : Safe s) (hsends : Sends (s.scanID r) (s.position (.simulator r)))
    (hp : s.position (.simulator r) = .send i r data .offer)
    (hm : (s.session r).msg.offer data = .moves msg) (h : Delivered s r) :
    Delivered ((s.set r { s.session r with msg, mu := none }).move (.simulator r) (sent i r)) r := by
  obtain ⟨clock, got, last, h⟩ := h
  rw [hp] at hsends
  obtain ⟨hi, now, rfl⟩ := hsends
  have hopen := (hs.known hp rfl).1
  have hlen : clock.length = i := by
    rw [h.counted hopen, hp]
    rfl
  have hroom : (s.session r).msg.queue.length < (s.session r).msg.capacity := by
    have hqueue := congrArg List.length h.queue
    rw [List.length_append, length_events, hlen] at hqueue
    rw [(hs.roomy r).1]
    have hstages : stages.length = 5 := rfl
    omega
  obtain ⟨_, ⟨rfl, _⟩ | ⟨_, hfull⟩⟩ := Channel.offer_cases hm
  · refine ⟨clock ++ [now], got, last, ?_⟩
    exact
      { body := h.body
        queue := by
          simp only [session_move, set_session, update_self]
          rw [events_concat, ← List.append_assoc, hlen]
          exact congrArg (· ++ _) h.queue
        counted := fun _ => by
          simp only [position_move, update_self]
          rw [List.length_append, hlen, count_sent hi]
          rfl
        ended := fun hc => by
          simp only [session_move, set_session, update_self] at hc
          rw [hopen] at hc
          cases hc
        rest := by
          obtain hlast | ⟨_, _, hall, _⟩ := h.rest
          · exact .inl hlast
          · omega
        finished := fun hfin => by
          simp only [position_move] at hfin
          rw [update_of_ne (by simp)] at hfin
          exact h.finished hfin
        length := by
          rw [List.length_append, hlen]
          exact Nat.succ_le_succ hi }
  · omega

theorem delivered_simulator {r : Nat} (h : Goes s (.simulator r) s') (hs : Safe s) (ho : Own s)
    (hst : Streams s) (hmade : Made s r) : Delivered s' r := by
  have hfits := hs.placed.fits (.simulator r)
  have hold := hst.delivers r hmade
  have hown : ∀ {p ss}, s.position (.simulator r) = p → workedOn p = some ss → ss = r := by
    rintro p ss rfl hp
    exact ho.own _ ss hp
  cases h with
  | create hp | receive hp | drained hp | lockCreate hp =>
    rw [hp] at hfits
    cases hfits
  | lockGet hp | missing hp | get hp | sleep hp | test hp | begin hp =>
    obtain ⟨clock, got, last, h⟩ := hold
    exact ⟨clock, got, last, h.keep rfl rfl (fun _ => by simp [hp, count]) (.inl (by simp))⟩
  | stage now hp =>
    obtain ⟨clock, got, last, h⟩ := hold
    exact ⟨clock, got, last, h.keep rfl rfl (fun _ => by simp [hp, count]) (.inl (by simp))⟩
  | @stopped ss hp hd =>
    obtain rfl : ss = r := by
      obtain ⟨_, hp⟩ | ⟨_, hp⟩ := hp <;> exact hown hp rfl
    obtain ⟨clock, got, last, h⟩ := hold
    refine ⟨clock, got, last, h.keep rfl rfl (fun hopen => ?_) (.inl (by simp))⟩
    rw [closed_of_done hs (.inl hd)] at hopen
    cases hopen
  | @drop i ss data hp hc =>
    obtain rfl := hown hp rfl
    obtain ⟨clock, got, last, h⟩ := hold
    refine ⟨clock, got, last, h.keep (by simp) (by simp) (fun hopen => ?_) (.inl (by simp))⟩
    rw [hc] at hopen
    cases hopen
  | @offer i ss data msg hp hm =>
    obtain rfl := hown hp rfl
    exact delivered_offer hs (hst.sends ss) hp hm hold
  | @lockSend i ss data hp hmu =>
    obtain rfl := hown hp rfl
    obtain ⟨clock, got, last, h⟩ := hold
    exact ⟨clock, got, last, h.keep (by simp) (by simp) (fun _ => by simp [hp, count])
      (.inl (by simp))⟩
  | @mark ss hp =>
    obtain rfl := hown hp rfl
    obtain ⟨clock, got, last, h⟩ := hold
    have hopen := (hs.known hp rfl).1
    exact ⟨clock, got, last, h.mark hopen (by simp) (by simp) (.inl (by simp)) fun _ => by
      rw [hp]
      rfl⟩
  | @closedAlready ss hp hc =>
    obtain rfl := hown hp rfl
    obtain ⟨clock, got, last, h⟩ := hold
    refine ⟨clock, got, last, h.keep (by simp) (by simp) (fun hopen => ?_) (.inl (by simp))⟩
    rw [hc] at hopen
    cases hopen
  | @delete ss hp =>
    obtain rfl := hown hp rfl
    obtain ⟨clock, got, last, h⟩ := hold
    refine ⟨clock, got, last, h.keep (by simp) (by simp) (fun hopen => ?_) (.inl (by simp))⟩
    rw [(hs.known hp rfl).1] at hopen
    cases hopen
  | @lockClose ss hp _ | @closeDone ss hp | @closeMsg ss hp | @lockDelete ss hp _ =>
    obtain rfl := hown hp rfl
    obtain ⟨clock, got, last, h⟩ := hold
    exact ⟨clock, got, last, h.keep (by simp) (by simp) (fun _ => by simp [hp, count])
      (.inl (by simp))⟩

theorem made_go (h : Goes s t s') {r : Nat} (hr : Made s r) : Made s' r := by
  obtain ⟨hp, hposition, _⟩ | ⟨⟨p, hposition, hshift⟩, _⟩ := shift_go h
  · unfold Made
    rw [hposition, update_of_ne (by simp), Function.update_apply]
    split
    · simp [Behind]
    · exact hr
  · exact (made_shift hposition hshift r).mpr hr

theorem sends_go (h : Goes s t s') (hs : Placed s) (hst : Streams s) (r : Nat) :
    Sends (s'.scanID r) (s'.position (.simulator r)) := by
  rw [scanID_go h]
  by_cases ht : t.request = r
  · have hsends := hst.sends r
    cases t with
    | handler r' =>
      obtain rfl : r' = r := ht
      obtain ⟨hp, hposition, _⟩ | ⟨⟨p, hposition, _⟩, _⟩ := shift_go h
      · rw [hposition]
        simp [Thread.request, Sends]
      · rw [hposition, update_of_ne (by simp)]
        exact hsends
    | simulator r' =>
      obtain rfl : r' = r := ht
      have hfits := hs.fits (.simulator r')
      cases h with
      | create hp | receive hp | drained hp | lockCreate hp =>
        rw [hp] at hfits
        cases hfits
      | drop hp | offer hp =>
        simp only [position_move, update_self]
        exact sends_sent _ _ _
      | lockSend hp | test hp =>
        rw [hp] at hsends
        simp only [position_move, update_self]
        exact hsends
      | stage now hp =>
        rw [hp] at hsends
        simp only [position_move, update_self]
        exact ⟨hsends, now, rfl⟩
      | sleep hp =>
        rw [hp] at hsends
        simp only [position_move, update_self]
        exact hsends
      | get hp =>
        simp only [position_move, update_self]
        exact Nat.zero_le _
      | _ =>
        simp only [position_move, update_self]
        trivial
  · rw [position_other h (u := .simulator r) (Ne.symm ht)]
    exact hst.sends r

theorem hungUp_go (h : Goes s t s') (hs : Placed s) (hst : Streams s) (r ss : Nat) (q : Closing)
    (hclose : s'.position (.handler r) = .close ss q) : s'.gone r = true := by
  rw [gone_go h]
  by_cases ht : t.request = r
  · cases t with
    | handler r' =>
      obtain rfl : r' = r := ht
      have hfits := hs.fits (.handler r')
      have hold : ∀ ss q, s.position (.handler r') = .close ss q → s.gone r' = true :=
        fun ss q => hst.hungUp r' ss q
      cases h with
      | lockClose hp | begin hp | mark hp | closeDone hp | closeMsg hp | lockDelete hp =>
        exact hold _ _ hp
      | stopped hp hd =>
        obtain ⟨_, hp⟩ | ⟨_, hp⟩ := hp <;> rw [hp] at hfits <;> cases hfits
      | drop hp | offer hp | test hp | lockSend hp | stage _ hp | sleep hp | get hp =>
        rw [hp] at hfits
        cases hfits
      | create hp => simp [Thread.request] at hclose
      | receive hp =>
        simp only [write_position, set_position, hp] at hclose
        cases hclose
      | _ => simp at hclose
    | simulator r' =>
      obtain ⟨hp, _⟩ | ⟨⟨p, hposition, _⟩, _⟩ := shift_go h
      · cases (hs.create hp).1
      · rw [hposition, update_of_ne (by simp)] at hclose
        exact hst.hungUp r ss q hclose
  · rw [position_other h (u := .handler r) (Ne.symm ht)] at hclose
    exact hst.hungUp r ss q hclose

theorem blank_go (h : Goes s t s') (hs : Placed s) (hst : Streams s) (r : Nat)
    (hr : ¬ Made s' r) : s'.body r = [] := by
  have hold : ¬ Made s r := fun hmade => hr (made_go h hmade)
  have hne : s.position t = .streaming → r ≠ t.request := by
    rintro hp rfl
    refine hold ?_
    unfold Made
    rw [← handler_of_streaming hs hp, hp]
    simp [Behind]
  cases h with
  | receive hp | drained hp => exact (update_of_ne (hne hp) _ _).trans (hst.blank r hold)
  | _ => exact hst.blank r hold

theorem streams_go (h : Goes s t s') (hs : Safe s) (ho : Own s) (hst : Streams s) :
    Streams s' := by
  refine ⟨sends_go h hs.placed hst, hungUp_go h hs.placed hst, blank_go h hs.placed hst,
    fun r hr => ?_⟩
  by_cases ht : t.request = r
  · cases t with
    | handler r' =>
      obtain rfl : r' = r := ht
      exact delivered_handler h hs hst hr
    | simulator r' =>
      obtain rfl : r' = r := ht
      refine delivered_simulator h hs ho hst ?_
      obtain ⟨hp, _⟩ | ⟨⟨p, hposition, hshift⟩, _⟩ := shift_go h
      · cases (hs.placed.create hp).1
      · exact (made_shift hposition hshift r').mp hr
  · have hne := Ne.symm ht
    have hr' : Made s r := by
      unfold Made at hr ⊢
      rwa [position_other h (u := .handler r) hne] at hr
    have hold := hst.delivers r hr'
    rwa [scanID_go h, gone_go h, session_other h ho hne, body_other h hne,
      position_other h (u := .handler r) hne, position_other h (u := .simulator r) hne]

/-- A handler that stops waiting for events without having been sent the last one. -/
theorem streams_hangUp {r : Nat} {p : Position} (hp : s.position (.handler r) = .streaming)
    (hgone : s.gone r = true) (hnew : p = .finished ∨ p = .close r .lock) (hst : Streams s) :
    Streams (s.move (.handler r) p) := by
  have hbehind : Behind p := by obtain rfl | rfl := hnew <;> simp [Behind]
  have hmade : ∀ r', Made (s.move (.handler r) p) r' ↔ Made s r' := by
    intro r'
    simp only [Made, position_move, Function.update_apply]
    split
    · rename_i heq
      rw [heq, hp]
      exact iff_of_true hbehind (by simp [Behind])
    · exact Iff.rfl
  refine ⟨fun r' => ?_, fun r' ss q hclose => ?_, fun r' hr => ?_, fun r' hr => ?_⟩
  · simp only [position_move]
    rw [update_of_ne (by simp)]
    exact hst.sends r'
  · simp only [position_move, Function.update_apply] at hclose
    split at hclose
    · rename_i heq
      cases heq
      exact hgone
    · exact hst.hungUp r' ss q hclose
  · exact hst.blank r' fun h => hr ((hmade r').mpr h)
  · obtain ⟨clock, got, last, h⟩ := hst.delivers r' ((hmade r').mp hr)
    refine ⟨clock, got, last, h.keep rfl rfl (fun _ => by simp) ?_⟩
    simp only [position_move, Function.update_apply]
    split
    · rename_i heq
      cases heq
      refine .inr ⟨?_, by simp [hp], hgone⟩
      obtain rfl | rfl := hnew <;> simp
    · exact .inl rfl

theorem streams_arrive {r : Nat} {id : String} (hp : s.position (.handler r) = .idle)
    (hs : Placed s) (hst : Streams s) :
    Streams ({ s with scanID := update s.scanID r id }.move (.handler r) .createSession) := by
  have hmade : ¬ Made s r := fun h => h.1 hp
  have hback : ∀ r', Made ({ s with scanID := update s.scanID r id }.move (.handler r)
      .createSession) r' ↔ Made s r' := by
    intro r'
    simp only [Made, position_move, Function.update_apply]
    split
    · rename_i heq
      rw [heq, hp]
      simp [Behind]
    · exact Iff.rfl
  refine ⟨fun r' => ?_, fun r' ss q hclose => ?_, fun r' hr => ?_, fun r' hr => ?_⟩
  · simp only [position_move]
    rw [update_of_ne (by simp)]
    by_cases hne : r' = r
    · rw [hne, (hs.started r).mpr hmade]
      trivial
    · change Sends (update s.scanID r id r') _
      rw [update_of_ne hne]
      exact hst.sends r'
  · simp only [position_move, Function.update_apply] at hclose
    split at hclose
    · cases hclose
    · exact hst.hungUp r' ss q hclose
  · exact hst.blank r' fun h => hr ((hback r').mpr h)
  · have hr' := (hback r').mp hr
    have hne : r' ≠ r := by
      rintro rfl
      exact hmade hr'
    obtain ⟨clock, got, last, h⟩ := hst.delivers r' hr'
    refine ⟨clock, got, last, ?_⟩
    simp only [position_move, scanID_move]
    rw [update_of_ne hne, update_of_ne (by simpa using hne), update_of_ne (by simp)]
    exact h

theorem streams_disconnect (r : Nat) (hst : Streams s) :
    Streams { s with gone := update s.gone r true } := by
  have hgone : ∀ r', s.gone r' = true → update s.gone r true r' = true := by
    intro r' h
    rw [Function.update_apply]
    split
    · rfl
    · exact h
  refine ⟨hst.sends, fun r' ss q hclose => hgone r' (hst.hungUp r' ss q hclose), hst.blank,
    fun r' hr => ?_⟩
  obtain ⟨clock, got, last, h⟩ := hst.delivers r' hr
  refine ⟨clock, got, last, { h with finished := fun hfin hg => h.finished hfin ?_ }⟩
  by_contra hne
  have htrue := hgone r' (by simpa using hne)
  cases hg.symm.trans htrue

structure Served (s : State) : Prop where
  safe : Safe s
  own : Own s
  streams : Streams s

theorem served_initial : Served initial where
  safe := safe_initial
  own := by constructor <;> simp [initial, Running, workedOn, Made, Behind]
  streams := by constructor <;> simp [initial, Sends, Made, Behind]

theorem served_step {a : Action} (ha : Fresh s a) (h : step s a = .moves s') (hs : Served s) :
    Served s' := by
  have hsafe := safe_step h hs.safe
  cases a with
  | go t now =>
    have hgoes := goes_of_go h
    exact ⟨hsafe, own_go hgoes hs.safe hs.own, streams_go hgoes hs.safe hs.own hs.streams⟩
  | disconnect r =>
    obtain rfl := Outcome.moves.inj h
    exact ⟨hsafe, ⟨hs.own.apart, hs.own.own, hs.own.current, hs.own.kept⟩,
      streams_disconnect r hs.streams⟩
  | arrive r param query fresh =>
    simp only [step] at h
    split at h
    · rename_i hp
      obtain rfl := Outcome.moves.inj h
      exact ⟨hsafe, own_arrive hp ha hs.safe hs.own, streams_arrive hp hs.safe.placed hs.streams⟩
    · cases h
  | leave r =>
    simp only [step] at h
    split at h
    · rename_i hp
      obtain rfl := Outcome.moves.inj h
      refine ⟨hsafe, own_hangUp hp.1 ⟨?_, fun _ => trivial, by simp, by simp [workedOn]⟩ hs.own,
        streams_hangUp hp.1 hp.2 (.inl rfl) hs.streams⟩
      simp [Behind, hp.1]
    · cases h
  | cancel r =>
    simp only [step] at h
    split at h
    · rename_i hp
      obtain rfl := Outcome.moves.inj h
      have hmade : Made s r := by simp [Made, Behind, hp.1]
      refine ⟨hsafe, own_hangUp hp.1 ⟨?_, fun _ => rfl, by simp, fun ss hss => ?_⟩ hs.own,
        streams_hangUp hp.1 hp.2 (.inr rfl) hs.streams⟩
      · simp [Behind, hp.1]
      · cases hss
        exact .inr (.inr ⟨rfl, hmade⟩)
    · cases h

theorem served_of_reach (h : Reach step Fresh initial s) : Served s :=
  h.invariant served_initial fun _ _ _ hs ha hstep => served_step ha hstep hs

theorem Delivers.whole (h : Delivers id x handler simulator gone body clock got [doneFrame id])
    (hq : x.msg.queue = []) (hall : clock.length = stages.length + 1) :
    body = transcript id clock := by
  have hqueue := h.queue
  rw [hq, List.append_nil] at hqueue
  rw [h.body, transcript, if_pos hall, hqueue]

/-- Where no scan is asked for while an earlier request for it is being served, a client is
sent the five stages and the completion of the scan, in this order and none of them twice, and
a stream that ends while its client is there has been sent in full. -/
theorem stream_transcript (h : Reach step Fresh initial s) (r : Nat) :
    ∃ clock, clock.length ≤ stages.length + 1 ∧ s.body r <+: transcript (s.scanID r) clock ∧
      (s.position (.handler r) = .finished → s.gone r = false →
        clock.length = stages.length + 1 ∧ s.body r = transcript (s.scanID r) clock) := by
  have hst := (served_of_reach h).streams
  by_cases hmade : Made s r
  · obtain ⟨clock, got, last, hd⟩ := hst.delivers r hmade
    refine ⟨clock, hd.length, ?_, fun hfin hgone => ?_⟩
    · obtain rfl | ⟨rfl, hq, hall, _⟩ := hd.rest
      · rw [hd.body, transcript, ← hd.queue, List.map_append, List.append_nil, List.append_assoc]
        exact List.prefix_append _ _
      · rw [hd.whole hq hall]
    · obtain hlast | ⟨rfl, hq, hall, _⟩ := hd.rest
      · exact absurd hlast (hd.finished hfin hgone)
      · exact ⟨hall, hd.whole hq hall⟩
  · refine ⟨[], Nat.zero_le _, ?_, fun hfin => ?_⟩
    · rw [hst.blank r hmade]
      exact List.nil_prefix
    · exact absurd (by simp [Made, Behind, hfin]) hmade

theorem stream_transcript_over :
    ∃ clock, clock.length ≤ stages.length + 1 ∧
      served.body 0 <+: transcript (served.scanID 0) clock ∧
      (served.position (.handler 0) = .finished → served.gone 0 = false →
        clock.length = stages.length + 1 ∧ served.body 0 = transcript (served.scanID 0) clock) :=
  stream_transcript reach_over 0

end Contents

section Reading

/-- The events that the client of a complete stream is told of. -/
def told (id : String) (clock : List String) : List Event :=
  (events id clock).map (fun data => ⟨"progress".toList, data.toList⟩) ++
    [⟨"done".toList, (doneData id).toList⟩]

theorem oneLine_marshal (e : ScanProgress) : OneLine (marshal e).toList := by
  unfold marshal
  split <;>
    simp only [String.toList_append, oneLine_append, oneLine_string, oneLine_toString, and_true] <;>
    decide +kernel

theorem oneLine_events {id data : String} {clock : List String} (h : data ∈ events id clock) :
    OneLine data.toList := by
  obtain ⟨i, hi, heq⟩ := List.mem_mapIdx.mp h
  rw [← heq]
  exact oneLine_marshal _

theorem oneLine_doneData {id : String} (h : OneLine id.toList) : OneLine (doneData id).toList := by
  simp only [doneData, String.toList_append, oneLine_append]
  exact ⟨⟨by decide +kernel, h⟩, by decide +kernel⟩

theorem progressFrame_render (data : String) :
    (progressFrame data).toList = render ⟨"progress".toList, data.toList⟩ := by
  unfold progressFrame render
  simp

theorem doneFrame_render (id : String) :
    (doneFrame id).toList = render ⟨"done".toList, (doneData id).toList⟩ := by
  unfold doneFrame render
  simp

theorem text_transcript {id : String} {clock : List String}
    (h : clock.length = stages.length + 1) :
    (transcript id clock).flatMap String.toList = (told id clock).flatMap render := by
  rw [transcript, if_pos h, told, List.flatMap_append, List.flatMap_append, List.flatMap_map,
    List.flatMap_map]
  simp only [progressFrame_render, List.flatMap_singleton, doneFrame_render]

/-- A client that reads a stream which ended while it was there is told of the six events of
the scan, each with its own data, and then that the scan is done. -/
theorem stream_read (h : Reach step Fresh initial s) (r : Nat)
    (hend : s.position (.handler r) = .finished) (hgone : s.gone r = false)
    (hid : OneLine (s.scanID r).toList) :
    ∃ clock, clock.length = stages.length + 1 ∧
      read ((s.body r).flatMap String.toList) = told (s.scanID r) clock := by
  obtain ⟨clock, -, -, hwhole⟩ := stream_transcript h r
  obtain ⟨hlen, hbody⟩ := hwhole hend hgone
  refine ⟨clock, hlen, ?_⟩
  rw [hbody, text_transcript hlen]
  refine read_render fun e he => ?_
  have hprogress : OneLine "progress".toList := by decide +kernel
  have hdone : OneLine "done".toList := by decide +kernel
  have hdata := oneLine_doneData hid
  obtain he | he := List.mem_append.mp he
  · obtain ⟨data, hdata, rfl⟩ := List.mem_map.mp he
    exact ⟨by simp, hprogress, oneLine_events hdata⟩
  · obtain rfl := List.mem_singleton.mp he
    exact ⟨by simp, hdone, hdata⟩

theorem stream_read_over :
    ∃ clock, clock.length = stages.length + 1 ∧
      read ((served.body 0).flatMap String.toList) = told (served.scanID 0) clock :=
  stream_read reach_over 0 (by decide +kernel) (by decide +kernel) (by decide +kernel)

end Reading

end RivicQ.Properties.ScanStreams
