import DevAdapter.System.MissingClient

/-!
# Nothing streams without a client

A timeout without a heart beat closes what streams: RSSI at the rf device, by a
request that may fail, and the DMA. Commands that a stopped client left in the
queue are handled afterwards, with no test of `waiting`. Nothing streams without
a client in the runs in which none of these starts a stream and the device is
told to stop where it has to be.
-/

namespace DevAdapter

open Function (update)
open Transition

/-- Neither the DMA nor RSSI is on, for the program and for the devices. -/
structure Off (dma : Dma) (rssiState rssiOn : Bool) : Prop where
  csi : dma.csiState = false
  constellation : dma.constellationState = false
  dma : dma.started = false
  rssiState : rssiState = false
  rssi : rssiOn = false

def MsgType.onDma : MsgType → Dma → Dma
  | .startCsi => gwStartcsi
  | .stopCsi => gwStopcsi
  | .startConstellation => gwStartConstellation
  | .stopConstellation => gwStopConstellation
  | _ => id

def MsgType.startsDma : MsgType → Bool
  | .startCsi | .startConstellation => true
  | _ => false

def MainPc.closesStreams : MainPc → Bool
  | .closeStreams _ => true
  | _ => false

-- ---------------------------------------------------------------------------
-- The DMA
-- ---------------------------------------------------------------------------

def Dma.Accounted (d : Dma) : Prop :=
  d.started = true → d.csiState = true ∨ d.constellationState = true

theorem Dma.accounted_onDma {d : Dma} (h : d.Accounted) (type : MsgType) :
    (type.onDma d).Accounted := by
  cases type with
  | startCsi =>
    rw [MsgType.onDma, gwStartcsi]
    split
    · exact h
    · exact fun _ => .inl rfl
  | startConstellation =>
    rw [MsgType.onDma, gwStartConstellation]
    split
    · exact h
    · exact fun _ => .inr rfl
  | stopCsi =>
    rw [MsgType.onDma, gwStopcsi]
    split
    · exact nofun
    · exact h
  | stopConstellation =>
    rw [MsgType.onDma, gwStopConstellation]
    split
    · exact nofun
    · exact h
  | _ => exact h

theorem Dma.stopped {d : Dma} (h : d.Accounted) :
    (gwStopConstellation (gwStopcsi d)).csiState = false ∧
    (gwStopConstellation (gwStopcsi d)).constellationState = false ∧
    (gwStopConstellation (gwStopcsi d)).started = false := by
  unfold Dma.Accounted at h
  unfold gwStopConstellation gwStopcsi
  cases hcsi : d.csiState <;> cases hconst : d.constellationState <;> simp_all

theorem Off.onDma {d : Dma} {rssiState rssiOn : Bool} (h : Off d rssiState rssiOn)
    {type : MsgType} (hstart : type.startsDma = false) : Off (type.onDma d) rssiState rssiOn := by
  cases type with
  | startCsi | startConstellation => cases hstart
  | stopCsi => simpa [MsgType.onDma, gwStopcsi, h.csi] using h
  | stopConstellation => simpa [MsgType.onDma, gwStopConstellation, h.constellation] using h
  | _ => exact h

namespace System

/-- The command the main thread handles starts no stream, should the client be
gone: RSSI is not switched on by the rf device, and no answer of any device sets
`rssi_state`. When the client's streams are closed, the rf device has RSSI on
only if `rssi_state` says so, and the request to switch it off is answered. -/
def OrderlyAt (s : System) (a : Answer) : MainPc → Prop
  | .handle m => s.waiting = .disconnected → m.type.startsDma = false ∧
    (m.type = .rssiStateChange → a.timer = true →
      ¬ (a.reply.isSome = true ∧ a.rf = true) ∧
        ¬ (a.reply.any (0 < ·) = true ∧ s.gReceive ≠ none))
  | .closeStreams _ => (s.rssiState = false → s.rssiOn = false) ∧
    (s.rssiState = true → a.reply.any (0 < ·) = true)
  | _ => True

def Orderly (s : System) : Act → Prop
  | .main a => OrderlyAt s a s.main
  | _ => True

instance decidableOrderlyAt (s : System) (a : Answer) : (pc : MainPc) → Decidable (OrderlyAt s a pc)
  | .handle _ => inferInstanceAs (Decidable (_ → _))
  | .closeStreams _ => inferInstanceAs (Decidable (_ ∧ _))
  | .idle | .register | .testTimer | .startClose | .startRunning | .startSignal | .startDone
  | .enableSend | .stopTimer | .clearTimer | .checkConnected _ | .resetConnected _
  | .setDisconnected _ | .stopReceive _ | .join _ | .free _ | .clearReceive _ | .reInit
  | .reInitUnlock | .inquiry _ | .sending => isTrue trivial

instance (s : System) : (act : Act) → Decidable (Orderly s act)
  | .main a => decidableOrderlyAt s a s.main
  | .server _ | .receive _ _ | .post _ | .timer | .spurious | .send _ _ | .callback _ _ _
  | .disconnect => isTrue trivial

variable {s s' : System}

-- ---------------------------------------------------------------------------
-- Before the server listens
-- ---------------------------------------------------------------------------

/-- Nothing is posted or handled before the server thread has begun. -/
structure UnstartedAt (main : MainPc) (timer : TimerPc) (running : Bool) (queue : List Msg)
    (post : Poster → PostPc) (recs : Nat → ReceivePara) : Prop where
  main : main = .idle
  timer : timer.parked = true
  running : running = false
  queue : queue = []
  post : ∀ p, post p = .idle
  recs : ∀ r, (recs r).pc = .absent

def Unstarted (s : System) : Prop :=
  s.server = .start → UnstartedAt s.main s.timer s.running s.queue s.post s.recs

theorem unstarted_init : Unstarted .init :=
  fun _ => ⟨rfl, rfl, rfl, rfl, fun _ => rfl, fun _ => rfl⟩

theorem Unstarted.step (hi : Unstarted s) (h : (adapter K).step s act = some s') :
    Unstarted s' := by
  obtain ⟨-, hmove⟩ := step_move h
  cases hmove with
  | server h => cases h <;> exact nofun
  | main h =>
    intro hs
    have hu := hi (by cases h <;> exact hs)
    have hmain := hu.main
    have hqueue := hu.queue
    cases h <;> simp_all [MainPc.derefs]
  | post h =>
    intro hs
    have hu := hi (by cases h <;> exact hs)
    have hpost := hu.post
    cases h <;> simp_all
  | receive h =>
    intro hs
    have hu := hi (by cases h <;> exact hs)
    have habsent := hu.recs
    cases h <;> simp_all [ReceivePc.working]
  | timer h =>
    intro hs
    have hu := hi (by cases h <;> exact hs)
    have hparked := hu.timer
    have hrun := hu.running
    cases h <;> first
      | exact { hu with timer := rfl }
      | simp_all [TimerPc.parked]
  | spurious => exact fun hs => { hi hs with timer := rfl }
  | send h =>
    intro hs
    have hu := hi (by cases h <;> exact hs)
    cases h <;> first
      | exact hu
      | exact { hu with recs := fun q => (map_update ReceivePara.pc q (by rfl)).trans (hu.recs q) }
  | broker | dma | disconnect => exact hi

-- ---------------------------------------------------------------------------
-- What a step of the main thread does with the streams
-- ---------------------------------------------------------------------------

/-- What streams, and whether it is about to be closed or was. -/
structure StreamingAt (waiting : Waiting) (server : ServerPc) (main : MainPc) (gReceive : Option Nat)
    (dma : Dma) (rssiState rssiOn : Bool) : Prop where
  accounted : dma.Accounted
  off : waiting = .disconnected → Off dma rssiState rssiOn
  closed : main.disconnects = true → Off dma rssiState rssiOn
  unstarted : server = .start → Off dma rssiState rssiOn
  present : main.closesStreams = true → gReceive ≠ none

abbrev Streaming (s : System) : Prop :=
  StreamingAt s.waiting s.server s.main s.gReceive s.dma s.rssiState s.rssiOn

theorem streaming_init : Streaming .init where
  accounted := nofun
  off := nofun
  closed := nofun
  unstarted _ := ⟨rfl, rfl, rfl, rfl, rfl⟩
  present := nofun

theorem dispatch_onDma (m : Msg) (a : Answer) : (s.dispatch m a).dma = m.type.onDma s.dma := by
  cases htype : m.type with
  | receivedHeartBeat =>
    simp only [dispatch, htype]
    split <;> rfl
  | _ => simp [dispatch, htype, MsgType.onDma]

theorem Streaming.command {m : Msg} (hi : Streaming s) (hserver : s.server ≠ .start)
    (hstart : s.waiting = .disconnected → m.type.startsDma = false) :
    Streaming { s with dma := m.type.onDma s.dma, main := .idle } where
  accounted := Dma.accounted_onDma hi.accounted m.type
  off hw := (hi.off hw).onDma (hstart hw)
  closed := nofun
  unstarted h := absurd h hserver
  present := nofun

theorem Streaming.rssi {reply : Option Nat} {rf on : Bool} (hi : Streaming s)
    (hserver : s.server ≠ .start)
    (hoff : s.waiting = .disconnected → on = true → ¬ (reply.isSome = true ∧ rf = true) ∧
      ¬ (reply.any (0 < ·) = true ∧ s.gReceive ≠ none)) :
    Streaming ((s.rssiStateChange reply rf on).goto .idle) where
  accounted := hi.accounted
  off hw := by
    have hbefore := hi.off hw
    cases on with
    | false =>
      exact { hbefore with
        rssiState := by simp [hbefore.rssiState]
        rssi := by simp [hbefore.rssi] }
    | true =>
      obtain ⟨hrf, hstored⟩ := hoff hw rfl
      exact { hbefore with
        rssiState := (if_neg hstored).trans hbefore.rssiState
        rssi := (if_neg hrf).trans hbefore.rssi }
  closed := nofun
  unstarted h := absurd h hserver
  present := nofun

/-- Closing leaves everything off, provided that RSSI is off where `rssi_state`
says so, and that the rf device answers where it is on. -/
theorem off_closed {reply : Option Nat} (haccounted : s.dma.Accounted) (hg : s.gReceive ≠ none)
    (hoff : s.rssiState = false → s.rssiOn = false)
    (hreply : s.rssiState = true → reply.any (0 < ·) = true) :
    Off (gwStopConstellation (gwStopcsi s.dma)) (s.closeRssi reply).rssiState
      (s.closeRssi reply).rssiOn := by
  obtain ⟨hcsi, hconst, hstarted⟩ := Dma.stopped haccounted
  cases hrssi : s.rssiState with
  | false => exact ⟨hcsi, hconst, hstarted, by simp [hrssi], by simp [hrssi, hoff hrssi]⟩
  | true =>
    have hany := hreply hrssi
    cases reply with
    | none => cases hany
    | some len =>
      refine ⟨hcsi, hconst, hstarted, ?_, by simp [hrssi]⟩
      simp [hrssi, hg, of_decide_eq_true hany]

theorem Streaming.close {reply : Option Nat} {n : Nat} (hi : Streaming s) (hserver : s.server ≠ .start)
    (hoff : Off (gwStopConstellation (gwStopcsi s.dma)) (s.closeRssi reply).rssiState
      (s.closeRssi reply).rssiOn) :
    Streaming (({ s with dma := gwStopConstellation (gwStopcsi s.dma) }.closeRssi reply).goto
      (.setDisconnected n)) where
  accounted :=
    Dma.accounted_onDma (Dma.accounted_onDma hi.accounted .stopCsi) .stopConstellation
  off _ := hoff
  closed _ := hoff
  unstarted h := absurd h hserver
  present := nofun

-- ---------------------------------------------------------------------------
-- Every step
-- ---------------------------------------------------------------------------

theorem StreamingAt.goOn {pc : MainPc} {g' : Option Nat} {rssi : Bool}
    (hi : StreamingAt w sv pc₀ g d rssi on) (hdisc : pc.disconnects = false)
    (hcloses : pc.closesStreams = true → g' ≠ none) : StreamingAt w sv pc g' d rssi on :=
  { hi with
    closed := fun h => by rw [hdisc] at h; cases h
    present := hcloses }

theorem mainStep_closeStreams {n : Nat} (a : Answer) (hpc : s.main = .closeStreams n) :
    mainStep s a = some (({ s with dma := gwStopConstellation (gwStopcsi s.dma) }.closeRssi
      a.reply).goto (.setDisconnected n)) := by
  rw [mainStep, hpc]

theorem Streaming.main (hi : Streaming s) (hserver : s.server ≠ .start) (hc : OrderlyAt s a s.main)
    (h : mainStep s a = some s') : Streaming s' := by
  cases mainStep_move h with
  | @command m dma hpc htype =>
    rw [hpc] at hc
    have hdispatch := Option.some.inj ((mainStep_handle a hpc).symm.trans h)
    have hdma : m.type.onDma s.dma = dma := by rw [← dispatch_onDma m a, hdispatch]
    rw [← hdma]
    exact hi.command hserver fun hw => (hc hw).1
  | @rssi m reply rf on hpc htype =>
    rw [hpc] at hc
    have hdispatch := Option.some.inj ((mainStep_handle a hpc).symm.trans h)
    simp only [dispatch, htype] at hdispatch
    rw [← hdispatch]
    exact hi.rssi hserver fun hw => (hc hw).2 htype
  | closeStreams reply dma hpc =>
    have hg := hi.present (by rw [hpc]; rfl)
    rw [hpc] at hc
    rw [Option.some.inj (h.symm.trans (mainStep_closeStreams a hpc))]
    exact hi.close hserver (off_closed hi.accounted hg hc.1 hc.2)
  | missed _ hg => exact hi.goOn rfl fun _ => by simp [hg]
  | setDisconnected hpc =>
    have hoff := hi.closed (by rw [hpc]; rfl)
    exact { hi with off := fun _ => hoff, closed := by rintro ⟨⟩, present := by rintro ⟨⟩ }
  | crash => exact hi
  | _ => exact hi.goOn rfl (by rintro ⟨⟩)

theorem Streaming.server (hi : Streaming s) (h : ServerMove s s') : Streaming s' := by
  cases h with
  | listen | connect => exact { hi with off := by rintro ⟨⟩, unstarted := by rintro ⟨⟩ }
  | giveUp hpc => exact { hi with off := fun _ => hi.unstarted hpc, unstarted := by rintro ⟨⟩ }
  | create | post => exact { hi with unstarted := by rintro ⟨⟩ }
  | install => exact { hi with unstarted := by rintro ⟨⟩, present := fun _ => Option.some_ne_none _ }

theorem Streaming.step (hi : Streaming s) (hu : Unstarted s) (hc : Orderly s act)
    (h : (adapter K).step s act = some s') : Streaming s' := by
  obtain ⟨-, hmove⟩ := step_move h
  cases hmove with
  | @main a _ hmain =>
    have hserver : s.server ≠ .start := by
      intro hstart
      have hidle := (hu hstart).main
      have hempty := (hu hstart).queue
      cases hmain <;> simp_all [MainPc.derefs]
    exact hi.main hserver hc (mainStep_of_step h)
  | server h => exact hi.server h
  | post h => cases h <;> exact hi
  | receive h => cases h <;> exact hi
  | timer h => cases h <;> exact hi
  | send h => cases h <;> exact hi
  | spurious | broker | dma | disconnect => exact hi

theorem streaming (h : (adapter K).ReachesUnder Orderly s) : Streaming s :=
  h.invariant streaming_init fun _ _ _ hr hi hc hs =>
    hi.step (hr.invariant unstarted_init fun _ _ _ _ hu _ hs => hu.step hs) hc hs

/-- Between two messages nothing streams unless there is a client. -/
def Quiet (s : System) : Prop :=
  s.main = .idle → s.waiting = .disconnected → Off s.dma s.rssiState s.rssiOn

theorem quiet_without_client (h : (adapter K).ReachesUnder Orderly s) : Quiet s :=
  fun _ => (streaming h).off

def commandFrame (type : UInt8) : List UInt8 := [4, 0, 0, 0, type, 0, 0, 0]

def command (r : Nat) (type : UInt8) : List Act :=
  [.receive r [], .receive r (commandFrame type), .receive r []] ++ posted (.receive r)

def streamAndStop : List Act :=
  boot ++ acceptClient ++ mains 9 ++ command 0 7 ++ mains 2 ++ command 0 2 ++ mains 1 ++
    [.main { reply := some 2, rf := true, timer := true }] ++ tick ++ mains 3 ++
    [.main { reply := some 2 }] ++ mains 2 ++ exitReceive 0 ++ mains 5

theorem streamAndStop_quiet : ∃ s, (adapter 8).run streamAndStop = some s ∧
    s.main = .idle ∧ s.waiting = .disconnected ∧ Off s.dma s.rssiState s.rssiOn := by
  have hrun : ((adapter 8).run streamAndStop).any
      (fun s => decide (s.main = .idle ∧ s.waiting = .disconnected)) = true := by decide +kernel
  obtain ⟨s, hs, hp⟩ := (Option.any_eq_true _ _).mp hrun
  obtain ⟨hmain, hw⟩ := of_decide_eq_true hp
  have hr : (adapter 8).ReachesUnder Orderly s := Machine.run_reachesUnder (by decide +kernel) hs
  exact ⟨s, hs, hmain, hw, quiet_without_client hr hmain hw⟩

/-- The start of CSI is queued behind the timeout that stops its client. -/
def startAfterTimeout : List Act :=
  boot ++ acceptClient ++ mains 9 ++ tick ++ command 0 7 ++ mains 6 ++ exitReceive 0 ++ mains 7

theorem startAfterTimeout_streams : ¬ ∀ K s, 0 < K → (adapter K).Reaches s → Quiet s := by
  intro h
  obtain ⟨s, hs, hp⟩ := Machine.exists_reaches (M := adapter 8) (p := fun s =>
    decide (s.main = .idle ∧ s.waiting = .disconnected ∧ s.dma.csiState = true))
    startAfterTimeout (by decide +kernel)
  obtain ⟨hmain, hw, hcsi⟩ := of_decide_eq_true hp
  rw [(h 8 s (by decide) hs hmain hw).csi] at hcsi
  cases hcsi

end System

end DevAdapter
