import DevAdapter.System.Step

/-!
# The timer on its own

`timer_thread` and one thread that calls `Start_Timer` and `stop_Timer` as often
and in whatever order it likes. A step is one access to `closeState` or
`running`, one operation on the mutex or the condition of `para_t`, or one post;
the mutex of `getState` is part of the access to `closeState`.
-/

namespace DevAdapter

open Transition

inductive Command
  | start
  | stop
  deriving DecidableEq, Repr

inductive ControlPc
  | idle
  | startClose
  | startRunning
  | startSignal
  | stopClose
  deriving DecidableEq, Repr

def ControlPc.starts : ControlPc → Bool
  | .startClose | .startRunning | .startSignal => true
  | .idle | .stopClose => false

structure Timer where
  running : Bool
  closeState : Bool
  -- the timer thread holds `para_t->mutex_`
  mutex : Bool
  thread : TimerPc
  control : ControlPc
  sleeps : Nat
  -- trace: the last completed command
  last : Option Command
  -- trace: the timeouts posted after the last completed `stop_Timer`, and before
  -- the next `Start_Timer`; one `stop_Timer` after another does not end the count
  ticks : Nat
  -- trace: `process_loop` has returned
  returned : Bool
  -- trace: a wait or an unlock was executed without the mutex
  unheld : Bool
  deriving DecidableEq, Repr

/-- What the controlling thread begins, its next statement, the next statement
of the timer thread, and a wake-up nobody signalled. -/
inductive TimerAct
  | call (c : Command)
  | control
  | thread
  | spurious
  deriving DecidableEq, Repr

namespace Timer

def init : Timer where
  running := false
  closeState := true
  mutex := false
  thread := .lock
  control := .idle
  sleeps := 0
  last := none
  ticks := 0
  returned := false
  unheld := false

def stopped (s : Timer) : Bool := s.last = some .stop && !s.control.starts

def threadStep (s : Timer) : Option Timer :=
  match s.thread with
  | .lock => if s.mutex then none else some { s with mutex := true, thread := .test }
  | .test => some { s with thread := if s.running then .unlock else .park }
  | .park =>
    some { s with unheld := s.unheld || !s.mutex, mutex := false, thread := .waiting false }
  | .waiting signalled =>
    if signalled && !s.mutex then some { s with mutex := true, thread := .test } else none
  | .unlock => some { s with unheld := s.unheld || !s.mutex, mutex := false, thread := .sleep }
  | .sleep => some { s with sleeps := s.sleeps + 1, thread := .sleeping (s.sleeps + 1) }
  | .sleeping n =>
    some { s with ticks := if s.stopped then s.ticks + 1 else s.ticks, thread := .testClose n }
  | .testClose n => some { s with thread := if s.closeState then .clearRunning n else .sleep }
  | .clearRunning n => some { s with running := false, thread := .postStop n }
  | .postStop _ => some { s with returned := true, thread := .test }

def spuriousStep (s : Timer) : Option Timer :=
  match s.thread with
  | .waiting _ => some { s with thread := .waiting true }
  | _ => none

def callStep (s : Timer) (c : Command) : Option Timer :=
  match s.control, c with
  | .idle, .start => some { s with control := .startClose }
  | .idle, .stop => some { s with control := .stopClose }
  | _, _ => none

def controlStep (s : Timer) : Option Timer :=
  match s.control with
  | .idle => none
  | .startClose => some { s with closeState := false, control := .startRunning }
  | .startRunning => some { s with running := true, control := .startSignal }
  | .startSignal =>
    some { s with thread := s.thread.signal, last := some .start, control := .idle }
  | .stopClose =>
    some { s with
      closeState := true
      ticks := if s.stopped then s.ticks else 0
      last := some .stop
      control := .idle }

def step (s : Timer) : TimerAct → Option Timer
  | .call c => s.callStep c
  | .control => s.controlStep
  | .thread => s.threadStep
  | .spurious => s.spuriousStep

end Timer

def timer : Machine Timer TimerAct := ⟨Timer.init, Timer.step⟩

namespace Timer

-- ---------------------------------------------------------------------------
-- What a step can do
-- ---------------------------------------------------------------------------

inductive Move (s : Timer) : TimerAct → Timer → Prop
  | callStart (hpc : s.control = .idle) :
    Move s (.call .start) { s with control := .startClose }
  | callStop (hpc : s.control = .idle) : Move s (.call .stop) { s with control := .stopClose }
  | startClose (hpc : s.control = .startClose) :
    Move s .control { s with closeState := false, control := .startRunning }
  | startRunning (hpc : s.control = .startRunning) :
    Move s .control { s with running := true, control := .startSignal }
  | startSignal (hpc : s.control = .startSignal) :
    Move s .control { s with
      thread := s.thread.signal, last := some .start, control := .idle }
  | stopClose (hpc : s.control = .stopClose) :
    Move s .control { s with
      closeState := true
      ticks := if s.stopped then s.ticks else 0
      last := some .stop
      control := .idle }
  | lock (hpc : s.thread = .lock) (hfree : s.mutex = false) :
    Move s .thread { s with mutex := true, thread := .test }
  | goOn (hpc : s.thread = .test) (hrun : s.running = true) :
    Move s .thread { s with thread := .unlock }
  | stay (hpc : s.thread = .test) (hrun : s.running = false) :
    Move s .thread { s with thread := .park }
  | park (hpc : s.thread = .park) :
    Move s .thread { s with
      unheld := s.unheld || !s.mutex, mutex := false, thread := .waiting false }
  | wake (hpc : s.thread = .waiting true) (hfree : s.mutex = false) :
    Move s .thread { s with mutex := true, thread := .test }
  | unlock (hpc : s.thread = .unlock) :
    Move s .thread { s with unheld := s.unheld || !s.mutex, mutex := false, thread := .sleep }
  | sleep (hpc : s.thread = .sleep) :
    Move s .thread { s with sleeps := s.sleeps + 1, thread := .sleeping (s.sleeps + 1) }
  | timeout {n} (hpc : s.thread = .sleeping n) :
    Move s .thread { s with
      ticks := if s.stopped then s.ticks + 1 else s.ticks, thread := .testClose n }
  | again {n} (hpc : s.thread = .testClose n) (hclose : s.closeState = false) :
    Move s .thread { s with thread := .sleep }
  | close {n} (hpc : s.thread = .testClose n) (hclose : s.closeState = true) :
    Move s .thread { s with thread := .clearRunning n }
  | clearRunning {n} (hpc : s.thread = .clearRunning n) :
    Move s .thread { s with running := false, thread := .postStop n }
  | postStop {n} (hpc : s.thread = .postStop n) :
    Move s .thread { s with returned := true, thread := .test }
  | spurious {signalled} (hpc : s.thread = .waiting signalled) :
    Move s .spurious { s with thread := .waiting true }

variable {s s' : Timer}

theorem threadStep_move (h : s.threadStep = some s') : Move s .thread s' := by
  cases hpc : s.thread with
  | lock =>
    simp only [threadStep, hpc] at h
    split at h <;> cases h
    rename_i hfree
    exact .lock hpc (by simpa using hfree)
  | test =>
    simp only [threadStep, hpc] at h
    cases h
    split
    · rename_i hrun
      exact .goOn hpc hrun
    · rename_i hrun
      exact .stay hpc (by simpa using hrun)
  | park =>
    simp only [threadStep, hpc] at h
    cases h
    exact .park hpc
  | waiting signalled =>
    simp only [threadStep, hpc] at h
    split at h <;> cases h
    rename_i hwake
    obtain ⟨rfl, hfree⟩ : signalled = true ∧ s.mutex = false := by simpa using hwake
    exact .wake hpc hfree
  | unlock =>
    simp only [threadStep, hpc] at h
    cases h
    exact .unlock hpc
  | sleep =>
    simp only [threadStep, hpc] at h
    cases h
    exact .sleep hpc
  | sleeping n =>
    simp only [threadStep, hpc] at h
    cases h
    exact .timeout hpc
  | testClose n =>
    simp only [threadStep, hpc] at h
    cases h
    split
    · rename_i hclose
      exact .close hpc hclose
    · rename_i hclose
      exact .again hpc (by simpa using hclose)
  | clearRunning n =>
    simp only [threadStep, hpc] at h
    cases h
    exact .clearRunning hpc
  | postStop n =>
    simp only [threadStep, hpc] at h
    cases h
    exact .postStop hpc

theorem controlStep_move (h : s.controlStep = some s') : Move s .control s' := by
  cases hpc : s.control with
  | idle => simp [controlStep, hpc] at h
  | startClose =>
    simp only [controlStep, hpc] at h
    cases h
    exact .startClose hpc
  | startRunning =>
    simp only [controlStep, hpc] at h
    cases h
    exact .startRunning hpc
  | startSignal =>
    simp only [controlStep, hpc] at h
    cases h
    exact .startSignal hpc
  | stopClose =>
    simp only [controlStep, hpc] at h
    cases h
    exact .stopClose hpc

theorem step_move (h : timer.step s act = some s') : Move s act s' := by
  cases act with
  | call c =>
    cases hpc : s.control with
    | idle =>
      cases c with
      | start =>
        simp only [timer, step, callStep, hpc] at h
        cases h
        exact .callStart hpc
      | stop =>
        simp only [timer, step, callStep, hpc] at h
        cases h
        exact .callStop hpc
    | _ => simp [timer, step, callStep, hpc] at h
  | control => exact controlStep_move h
  | thread => exact threadStep_move h
  | spurious =>
    cases hpc : s.thread with
    | waiting signalled =>
      simp only [timer, step, spuriousStep, hpc] at h
      cases h
      exact .spurious hpc
    | _ => simp [timer, step, spuriousStep, hpc] at h

theorem Move.step (h : Move s act s') : timer.step s act = some s' := by
  cases h with
  | callStart hpc | callStop hpc => simp only [timer, Timer.step, callStep, hpc]
  | startClose hpc | startRunning hpc | startSignal hpc | stopClose hpc =>
    simp only [timer, Timer.step, controlStep, hpc]
  | spurious hpc => simp only [timer, Timer.step, spuriousStep, hpc]
  | lock hpc | goOn hpc | stay hpc | park hpc | wake hpc | unlock hpc | sleep hpc | timeout hpc
  | again hpc | close hpc | clearRunning hpc | postStop hpc =>
    simp [timer, Timer.step, threadStep, *]

end Timer

end DevAdapter
