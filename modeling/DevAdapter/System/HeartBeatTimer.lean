import DevAdapter.System.Ownership

/-!
# The heart-beat timer

`hasTimer` goes on with an accept message and off with a closed message, of
whatever client. What it will be once everything queued is handled is a fold
over the queue, `armed`, which the main thread's own steps never change. It
stays on for a connected client unless that client's accept message comes into
the queue ahead of the closed message of the client before.
-/

namespace DevAdapter

open Function (update)
open Transition

def MsgType.arm (hasTimer : Bool) : MsgType → Bool
  | .acceptNewClient => true
  | .receiveThreadClosed => false
  | _ => hasTimer

/-- `hasTimer` when the main thread is through with its message. -/
def MainPc.arm (hasTimer : Bool) : MainPc → Bool
  | .handle m => m.type.arm hasTimer
  | .register | .testTimer | .startClose | .startRunning | .startSignal | .startDone => true
  | .stopTimer | .clearTimer => false
  | _ => hasTimer

/-- The last timer command that the main thread has begun to carry out is
`Start_Timer`. -/
def MainPc.started (hasTimer : Bool) : MainPc → Bool
  | .startRunning | .startSignal | .startDone => true
  | .clearTimer => false
  | _ => hasTimer

def ServerPc.announces : ServerPc → Bool
  | .connected _ => true
  | _ => false

theorem MsgType.arm_fromClient {type : MsgType} (h : type.fromClient = true) (hasTimer : Bool) :
    type.arm hasTimer = hasTimer := by
  cases type <;> first | rfl | cases h

theorem MsgType.arm_command {type : MsgType} (h : type.command = true) (hasTimer : Bool) :
    type.arm hasTimer = hasTimer := by
  cases type <;> first | rfl | cases h

namespace System

/-- `hasTimer` when everything queued is handled. -/
def armed (s : System) : Bool :=
  s.queue.foldl (fun hasTimer m => m.type.arm hasTimer) (s.main.arm s.hasTimer)

/-- The server thread has a client connected whose accept message is not queued. -/
def announcing (s : System) : Bool := s.server.announces || (s.post .server).type?.isSome

/-- No accept message of a connected client is queued while the closed message
of a client that is being stopped is still to come. -/
def ClosedFirst (s : System) : Act → Prop
  | .post p =>
    p = .server → (s.post p).enqueues = true → s.closing = true → s.waiting ≠ .connected
  | _ => True

instance (s : System) : (act : Act) → Decidable (ClosedFirst s act)
  | .post _ => inferInstanceAs (Decidable (_ → _ → _ → _))
  | .main _ | .receive _ _ | .server _ | .timer | .spurious | .send _ _ | .callback _ _ _
  | .disconnect => isTrue trivial

variable {s s' : System}

-- ---------------------------------------------------------------------------
-- Steps of the main thread
-- ---------------------------------------------------------------------------

theorem armed_main (h : MainMove s s') : s'.armed = s.armed := by
  cases h with
  | take hpc hqueue => simp [armed, hpc, hqueue, MainPc.arm]
  | command _ hpc htype => simp [armed, hpc, MainPc.arm, MsgType.arm_command htype]
  | _ => simp_all [armed, MainPc.arm, MsgType.arm]

theorem closeState_main (hi : s.main.started s.hasTimer = true → s.closeState = false)
    (h : MainMove s s') (hs : s'.main.started s'.hasTimer = true) : s'.closeState = false := by
  cases h <;> simp_all [MainPc.started]

theorem closing_main (h : MainMove s s') (hc : s'.closing = true) :
    s'.waiting = .disconnected ∨ s.closing = true ∧ s'.waiting = s.waiting ∧
      s'.announcing = s.announcing := by
  cases h with
  | setDisconnected => exact .inl rfl
  | stop hpc => exact .inr ⟨by simp [closing, hpc], rfl, rfl⟩
  | crash => exact .inr ⟨hc, rfl, rfl⟩
  | _ => cases hc

-- ---------------------------------------------------------------------------
-- The invariant
-- ---------------------------------------------------------------------------

/-- What keeps the timer on for a connected client. -/
structure Armed (s : System) : Prop where
  started : s.main.started s.hasTimer = true → s.closeState = false
  armed : s.waiting = .connected → s.announcing = false → s.armed = true
  closing : s.closing = true → s.waiting = .connected → s.announcing = true

theorem armed_init : Armed .init := ⟨nofun, nofun, nofun⟩

theorem Armed.congr (hi : Armed s) (hm : s'.main = s.main) (ht : s'.hasTimer = s.hasTimer)
    (hc : s'.closeState = s.closeState) (hw : s'.waiting = s.waiting) (hq : s'.queue = s.queue)
    (ha : s'.announcing = s.announcing) (hclosing : s'.closing = true → s.closing = true) :
    Armed s' := by
  refine ⟨?_, ?_, ?_⟩
  · rw [hm, ht, hc]
    exact hi.started
  · rw [hw, ha, System.armed, hq, hm, ht]
    exact hi.armed
  · rw [hw, ha]
    exact fun h => hi.closing (hclosing h)

theorem Armed.main (hi : Armed s) (h : MainMove s s') : Armed s' := by
  have hw : s'.waiting = .disconnected ∨ s'.waiting = s.waiting := by
    cases h <;> first | exact .inr rfl | exact .inl rfl
  have ha : s'.announcing = s.announcing := by cases h <;> rfl
  refine ⟨closeState_main hi.started h, fun hconn => ?_, fun hclosing hconn => ?_⟩
  · rw [ha, armed_main h]
    rcases hw with hw | hw
    · rw [hw] at hconn
      cases hconn
    · exact hi.armed (hw ▸ hconn)
  · rcases closing_main h hclosing with hw | ⟨hold, hsame, -⟩
    · rw [hw] at hconn
      cases hconn
    · rw [ha]
      exact hi.closing hold (hsame ▸ hconn)

theorem announcing_post (h : PostMove K s p s') (hp : p = .server → (s.post p).enqueues = false) :
    s'.announcing = s.announcing := by
  by_cases hs : p = .server
  · subst hs
    cases h with
    | lock hpc => simp [announcing, hpc, PostPc.type?]
    | msgsnd hpc => simp [hpc, PostPc.enqueues] at hp
    | unlock hpc => simp [announcing, hpc, PostPc.type?]
  · cases h <;> simp [announcing, Ne.symm hs]

/-- What a message that comes into the queue does to the timer of a connected client. -/
theorem Armed.arm (hi : Armed s) (hp : Posts s) (hpc : s.post p = .msgsnd m)
    (hw : s.waiting = .connected) (ha : p ≠ .server → s.announcing = false) :
    m.type.arm s.armed = true := by
  have ht : (s.post p).type? = some m.type := by rw [hpc]; rfl
  cases p with
  | server => rw [hp.server _ ht]; rfl
  | timer =>
    have harmed := hi.armed hw (ha (by simp))
    rcases hp.timer _ ht with h | h <;> rw [h] <;> exact harmed
  | receive r =>
    have hann : s.announcing = false := ha (by simp)
    rcases hp.receive r _ ht with h | ⟨h, hclosing⟩
    · rw [MsgType.arm_fromClient h]
      exact hi.armed hw hann
    · have hclosed : (s.recs r).pc.closed (s.post (.receive r)) = false := by
        rw [hclosing, ReceivePc.closed, ht]
        rfl
      have hstarted : (s.recs r).pc ≠ .absent := by simp [hclosing]
      have hjoin := hp.joined r hstarted (hp.closing r hclosing) hclosed
      have := hi.closing (by simp [System.closing, hjoin, hclosed]) hw
      rw [hann] at this
      cases this

theorem armed_append (s : System) (m : Msg) (post : Poster → PostPc) :
    ({ s with queue := s.queue ++ [m], post := post } : System).armed = m.type.arm s.armed := by
  simp [armed]

theorem Armed.post (hi : Armed s) (hp : Posts s) (hc : ClosedFirst s (.post p))
    (h : PostMove K s p s') : Armed s' := by
  have hclosing := closing_post h
  by_cases henq : p = .server → (s.post p).enqueues = false
  · have hann := announcing_post h henq
    cases h with
    | lock | unlock => exact hi.congr rfl rfl rfl rfl rfl hann hclosing
    | @msgsnd m hpc =>
      refine ⟨hi.started, fun hw ha => ?_, fun h hw => hann ▸ hi.closing (hclosing h) hw⟩
      rw [hann] at ha
      rw [armed_append]
      exact hi.arm hp hpc hw fun _ => ha
  · obtain ⟨rfl, henq⟩ : p = .server ∧ (s.post p).enqueues = true := by simpa using henq
    cases h with
    | lock hpc | unlock hpc => simp [hpc, PostPc.enqueues] at henq
    | @msgsnd m hpc =>
      refine ⟨hi.started, fun hw ha => ?_, fun h hw => ?_⟩
      · rw [armed_append]
        exact hi.arm hp hpc hw fun h => absurd rfl h
      · exact absurd hw (hc rfl henq (hclosing h))

theorem Armed.server (hi : Armed s) (hp : Posts s) (h : ServerMove s s') : Armed s' := by
  have hclosing := closing_server hp h
  cases h with
  | listen | giveUp => exact ⟨hi.started, nofun, fun _ => nofun⟩
  | create hpc | install hpc =>
    exact hi.congr rfl rfl rfl rfl rfl (by simp [announcing, hpc, ServerPc.announces]) hclosing
  | connect => exact ⟨hi.started, fun _ => nofun, fun _ _ => rfl⟩
  | post hpc =>
    have hann : s.announcing = true := by simp [announcing, hpc, ServerPc.announces]
    refine ⟨hi.started, fun _ h => ?_, fun _ _ => ?_⟩
    · simp [announcing, PostPc.type?] at h
    · simp [announcing, PostPc.type?]

theorem Armed.receive (hi : Armed s) (h : ReceiveMove s r s') : Armed s' := by
  have hann : s'.announcing = s.announcing := by cases h <;> simp [announcing]
  have hclosing := closing_receive h
  cases h <;> exact hi.congr rfl rfl rfl rfl rfl hann hclosing

theorem Armed.timer (hi : Armed s) (h : TimerMove s s') : Armed s' := by
  have hann : s'.announcing = s.announcing := by cases h <;> simp [announcing]
  have hclosing := closing_timer h
  cases h <;> exact hi.congr rfl rfl rfl rfl rfl hann hclosing

theorem Armed.send (hi : Armed s) (h : SendMove s x ret s') : Armed s' := by
  have hclosing := closing_send h
  cases h <;> exact hi.congr rfl rfl rfl rfl rfl rfl hclosing

theorem Armed.step (hi : Armed s) (hp : Posts s) (hc : ClosedFirst s act)
    (h : (adapter K).step s act = some s') : Armed s' := by
  obtain ⟨-, hmove⟩ := step_move h
  cases hmove with
  | post h => exact hi.post hp hc h
  | server h => exact hi.server hp h
  | receive h => exact hi.receive h
  | timer h => exact hi.timer h
  | main h => exact hi.main h
  | send h => exact hi.send h
  | spurious | broker | dma | disconnect => exact hi.congr rfl rfl rfl rfl rfl rfl id

-- ---------------------------------------------------------------------------
-- Runs
-- ---------------------------------------------------------------------------

/-- Once everything queued is handled, the timer of a connected client runs. The
queue does not hold everything as long as the accept message of the client is
still to come. -/
def TimerArmed (s : System) : Prop :=
  s.queue = [] → s.main = .idle → s.announcing = false → s.waiting = .connected →
    s.hasTimer = true ∧ s.closeState = false

theorem timer_armed (h : (adapter K).ReachesUnder ClosedFirst s) : TimerArmed s := by
  have hi : Armed s := h.invariant armed_init fun _ _ _ hr hi hc hs => hi.step (posts hr) hc hs
  intro hq hm ha hw
  have htimer : s.hasTimer = true := by simpa [armed, hq, hm, MainPc.arm] using hi.armed hw ha
  exact ⟨htimer, hi.started (by rw [hm]; exact htimer)⟩

theorem clientAfterClient_armed :
    ∃ s, (adapter 8).run (clientAfterClient ++ mains 8) = some s ∧ TimerArmed s := by
  obtain ⟨s, hs, hr⟩ := Machine.exists_run (M := adapter 8) (C := ClosedFirst)
    (clientAfterClient ++ mains 8) (by decide +kernel) (by decide +kernel)
  exact ⟨s, hs, timer_armed hr⟩

/-- A client connects while the client before it is stopped: its accept message
comes before the other's closed message. -/
def acceptDuringStop : List Act :=
  boot ++ acceptClient ++ mains 9 ++ tick ++ mains 6 ++ acceptClient ++ exitReceive 0 ++ mains 5 ++
    mains 8

theorem acceptDuringStop_unarmed : ¬ ∀ K s, 0 < K → (adapter K).Reaches s → TimerArmed s := by
  intro h
  obtain ⟨s, hs, hp⟩ := Machine.exists_reaches (M := adapter 8) (p := fun s =>
    s.queue.isEmpty && s.main = .idle && !s.announcing && s.waiting = .connected && !s.hasTimer)
    acceptDuringStop (by decide +kernel)
  simp only [Bool.and_eq_true, List.isEmpty_iff, decide_eq_true_eq, Bool.not_eq_true'] at hp
  obtain ⟨⟨⟨⟨hq, hm⟩, ha⟩, hw⟩, htimer⟩ := hp
  rw [(h 8 s (by decide) hs hq hm ha hw).1] at htimer
  cases htimer

end System

end DevAdapter
