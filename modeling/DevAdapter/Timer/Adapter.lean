import DevAdapter.System.Moves
import DevAdapter.Timer.Commands

/-!
# The timer of the adapter

The main thread calls `Start_Timer` and `stop_Timer` from `eventLoop` only, and
the timer thread waits for the queue when it posts. Apart from that the adapter's
timer is the one on its own, so what holds of every run of that one holds here:
a timer that was stopped posts at most one more timeout before it is started again.
-/

namespace DevAdapter

open DevAdapter.System Transition

def MainPc.control : MainPc → ControlPc
  | .startClose => .startClose
  | .startRunning => .startRunning
  | .startSignal => .startSignal
  | .stopTimer => .stopClose
  | _ => .idle

/-- The last completed command, and the timeouts posted after the last completed
`stop_Timer` and before the next `Start_Timer`. -/
structure Notes where
  last : Option Command
  ticks : Nat

def Notes.stopped (n : Notes) (s : System) : Bool := n.last = some .stop && !s.main.control.starts

def note (s : System) (act : Act) (n : Notes) : Notes :=
  match act with
  | .main _ =>
    match s.main with
    | .startSignal => { n with last := some .start }
    | .stopTimer => ⟨some .stop, if n.stopped s then n.ticks else 0⟩
    | _ => n
  | .timer =>
    match s.timer with
    | .sleeping _ => { n with ticks := if n.stopped s then n.ticks + 1 else n.ticks }
    | _ => n
  | _ => n

abbrev noting (K : Nat) := (adapter K).withHistory (⟨none, 0⟩ : Notes) note

/-- The timer of the adapter is in the state of `t`, what is about the mutex left out. -/
structure Follows (p : System × Notes) (t : Timer) : Prop where
  running : t.running = p.1.running
  closeState : t.closeState = p.1.closeState
  mutex : t.mutex = p.1.timerMutex
  thread : t.thread = p.1.timer
  control : t.control = p.1.main.control
  sleeps : t.sleeps = p.1.sleeps
  last : t.last = p.2.last
  ticks : t.ticks = p.2.ticks

namespace Follows

variable {s s' : System} {n : Notes} {t : Timer}

theorem init : Follows (noting K).init .init := ⟨rfl, rfl, rfl, rfl, rfl, rfl, rfl, rfl⟩

theorem stopped (hi : Follows (s, n) t) : t.stopped = n.stopped s := by
  rw [Timer.stopped, Notes.stopped, hi.last, hi.control]

theorem congr (hi : Follows (s, n) t) (hrun : s'.running = s.running)
    (hclose : s'.closeState = s.closeState) (hmutex : s'.timerMutex = s.timerMutex)
    (hthread : s'.timer = s.timer) (hcontrol : s'.main.control = s.main.control)
    (hsleeps : s'.sleeps = s.sleeps) : Follows (s', n) t :=
  ⟨hi.running.trans hrun.symm, hi.closeState.trans hclose.symm, hi.mutex.trans hmutex.symm,
    hi.thread.trans hthread.symm, hi.control.trans hcontrol.symm, hi.sleeps.trans hsleeps.symm,
    hi.last, hi.ticks⟩

theorem main (hi : Follows (s, n) t) (h : System.MainMove s s') :
    Follows (s', note s (.main a) n) t ∨
      ∃ b t', Timer.Move t b t' ∧ Follows (s', note s (.main a) n) t' := by
  have hstopped := hi.stopped
  obtain ⟨hrun, hclose, hmutex, hthread, hcontrol, hsleeps, hlast, hticks⟩ := hi
  cases h with
  | unarmed hpc =>
    refine .inr ⟨_, _, .callStart (by rw [hcontrol, hpc]; rfl), ?_⟩
    simp only [note, hpc]
    exact ⟨hrun, hclose, hmutex, hthread, rfl, hsleeps, hlast, hticks⟩
  | closed hpc =>
    refine .inr ⟨_, _, .callStop (by rw [hcontrol, hpc]; rfl), ?_⟩
    simp only [note, hpc]
    exact ⟨hrun, hclose, hmutex, hthread, rfl, hsleeps, hlast, hticks⟩
  | startClose hpc =>
    refine .inr ⟨_, _, .startClose (by rw [hcontrol, hpc]; rfl), ?_⟩
    simp only [note, hpc]
    exact ⟨hrun, rfl, hmutex, hthread, rfl, hsleeps, hlast, hticks⟩
  | startRunning hpc =>
    refine .inr ⟨_, _, .startRunning (by rw [hcontrol, hpc]; rfl), ?_⟩
    simp only [note, hpc]
    exact ⟨rfl, hclose, hmutex, hthread, rfl, hsleeps, hlast, hticks⟩
  | startSignal hpc =>
    refine .inr ⟨_, _, .startSignal (by rw [hcontrol, hpc]; rfl), ?_⟩
    simp only [note, hpc]
    exact ⟨hrun, hclose, hmutex, congrArg TimerPc.signal hthread, rfl, hsleeps, rfl, hticks⟩
  | stopTimer hpc =>
    refine .inr ⟨_, _, .stopClose (by rw [hcontrol, hpc]; rfl), ?_⟩
    simp only [note, hpc]
    refine ⟨hrun, rfl, hmutex, hthread, rfl, hsleeps, rfl, ?_⟩
    rw [hstopped, hticks]
  | crash hpc =>
    have hnote : note s (.main a) n = n := by
      cases hm : s.main <;> simp_all [MainPc.derefs, note]
    rw [hnote]
    exact .inl ⟨hrun, hclose, hmutex, hthread, hcontrol, hsleeps, hlast, hticks⟩
  | take hpc | acceptFirst hpc | accept hpc | rssi _ _ _ hpc | inquiry hpc | rfMf _ hpc
  | timeoutIgnored hpc | timeout hpc | closedIgnored hpc | heartBeat hpc | command _ hpc
  | register _ _ hpc | armed hpc | startDone hpc | enableSend hpc | clearTimer hpc | seen hpc
  | missed hpc | reset hpc | closeStreams _ _ hpc | setDisconnected hpc | stop hpc | join hpc
  | free hpc | clear hpc | tryLock hpc | busy hpc | reInit hpc | inquirySend _ hpc
  | inquiryEnd hpc | sent hpc =>
    refine .inl ?_
    simp only [note, hpc]
    exact ⟨hrun, hclose, hmutex, hthread, by rw [hcontrol, hpc]; rfl, hsleeps, hlast, hticks⟩

theorem timerThread (hi : Follows (s, n) t) (h : System.TimerMove s s') :
    ∃ b t', Timer.Move t b t' ∧ Follows (s', note s .timer n) t' := by
  have hstopped := hi.stopped
  obtain ⟨hrun, hclose, hmutex, hthread, hcontrol, hsleeps, hlast, hticks⟩ := hi
  cases h with
  | lock _ hpc hfree =>
    refine ⟨_, _, .lock (hthread.trans hpc) (hmutex.trans hfree), ?_⟩
    simp only [note, hpc]
    exact ⟨hrun, hclose, rfl, rfl, hcontrol, hsleeps, hlast, hticks⟩
  | goOn _ hpc hrunning =>
    refine ⟨_, _, .goOn (hthread.trans hpc) (hrun.trans hrunning), ?_⟩
    simp only [note, hpc]
    exact ⟨hrun, hclose, hmutex, rfl, hcontrol, hsleeps, hlast, hticks⟩
  | stay _ hpc hrunning =>
    refine ⟨_, _, .stay (hthread.trans hpc) (hrun.trans hrunning), ?_⟩
    simp only [note, hpc]
    exact ⟨hrun, hclose, hmutex, rfl, hcontrol, hsleeps, hlast, hticks⟩
  | park _ hpc =>
    refine ⟨_, _, .park (hthread.trans hpc), ?_⟩
    simp only [note, hpc]
    exact ⟨hrun, hclose, rfl, rfl, hcontrol, hsleeps, hlast, hticks⟩
  | wake _ hpc hfree =>
    refine ⟨_, _, .wake (hthread.trans hpc) (hmutex.trans hfree), ?_⟩
    simp only [note, hpc]
    exact ⟨hrun, hclose, rfl, rfl, hcontrol, hsleeps, hlast, hticks⟩
  | unlock _ hpc =>
    refine ⟨_, _, .unlock (hthread.trans hpc), ?_⟩
    simp only [note, hpc]
    exact ⟨hrun, hclose, rfl, rfl, hcontrol, hsleeps, hlast, hticks⟩
  | sleep _ hpc =>
    refine ⟨_, _, .sleep (hthread.trans hpc), ?_⟩
    simp only [note, hpc]
    refine ⟨hrun, hclose, hmutex, ?_, hcontrol, ?_, hlast, hticks⟩
    · exact congrArg (TimerPc.sleeping <| · + 1) hsleeps
    · exact congrArg (· + 1) hsleeps
  | timeout _ hpc =>
    refine ⟨_, _, .timeout (hthread.trans hpc), ?_⟩
    simp only [note, hpc]
    refine ⟨hrun, hclose, hmutex, rfl, hcontrol, hsleeps, hlast, ?_⟩
    rw [hstopped, hticks]
  | again _ hpc hclosed =>
    refine ⟨_, _, .again (hthread.trans hpc) (hclose.trans hclosed), ?_⟩
    simp only [note, hpc]
    exact ⟨hrun, hclose, hmutex, rfl, hcontrol, hsleeps, hlast, hticks⟩
  | close _ hpc hclosed =>
    refine ⟨_, _, .close (hthread.trans hpc) (hclose.trans hclosed), ?_⟩
    simp only [note, hpc]
    exact ⟨hrun, hclose, hmutex, rfl, hcontrol, hsleeps, hlast, hticks⟩
  | clearRunning _ hpc =>
    refine ⟨_, _, .clearRunning (hthread.trans hpc), ?_⟩
    simp only [note, hpc]
    exact ⟨rfl, hclose, hmutex, rfl, hcontrol, hsleeps, hlast, hticks⟩
  | postStop _ hpc =>
    refine ⟨_, _, .postStop (hthread.trans hpc), ?_⟩
    simp only [note, hpc]
    exact ⟨hrun, hclose, hmutex, rfl, hcontrol, hsleeps, hlast, hticks⟩

theorem step (hi : Follows (s, n) t) (h : (adapter K).step s act = some s') :
    Follows (s', note s act n) t ∨ ∃ b t', Timer.Move t b t' ∧ Follows (s', note s act n) t' := by
  obtain ⟨-, hmove⟩ := System.step_move h
  cases hmove with
  | main h => exact hi.main h
  | timer h => exact .inr (hi.timerThread h)
  | spurious hpc =>
    refine .inr ⟨_, _, .spurious (hi.thread.trans hpc), ?_⟩
    exact ⟨hi.running, hi.closeState, hi.mutex, rfl, hi.control, hi.sleeps, hi.last, hi.ticks⟩
  | post h | server h | receive h | send h =>
    exact .inl (by cases h <;> exact hi.congr rfl rfl rfl rfl rfl rfl)
  | broker | dma | disconnect => exact .inl (hi.congr rfl rfl rfl rfl rfl rfl)

end Follows

/-- Every run of the adapter is one of the timer on its own, and after a
`stop_Timer` it posts at most one timeout before the next `Start_Timer`. -/
theorem timer_follows {p : System × Notes} (h : (noting K).Reaches p) :
    p.2.ticks ≤ 1 ∧ ∃ t, timer.Reaches t ∧ Follows p t := by
  obtain ⟨t, ht, hfollows⟩ := h.simulate (N := timer) Follows.init fun p a p' t hi hs => by
    obtain ⟨s', ha, rfl⟩ := Option.map_eq_some_iff.mp hs
    rcases hi.step ha with hsame | ⟨b, t', hmove, hi'⟩
    · exact .inl hsame
    · exact .inr ⟨b, t', hmove.step, hi'⟩
  refine ⟨?_, t, ht, hfollows⟩
  rw [← hfollows.ticks]
  exact (ht.invariant Timer.stopping_init fun _ _ _ _ hi _ hs => hi.step hs).ticks

def stopInSleep : List Act :=
  boot ++ acceptClient ++ mains 9 ++ tick ++ mains 6 ++ exitReceive 0 ++ List.replicate 2 .timer ++
    mains 9 ++ [.timer]

theorem stopInSleep_follows : ∃ p, (noting 8).run stopInSleep = some p ∧
    p.2.ticks ≤ 1 ∧ ∃ t, timer.Reaches t ∧ Follows p t := by
  obtain ⟨p, hp, hr⟩ := Machine.exists_run (M := noting 8) (C := Machine.Always) stopInSleep
    (by decide +kernel) (Machine.along_always _ _)
  exact ⟨p, hp, timer_follows hr⟩

end DevAdapter
