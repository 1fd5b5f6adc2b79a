import DevAdapter.Timer.Step

/-!
# What the commands of the timer bring about

A stopped timer still owes at most one timeout: `owed` says how many the timer
thread posts before it waits again, `closeState` left as it is. A started timer
runs unless the timer thread clears `running` after `Start_Timer` has set it, or
is about to wait when `Start_Timer` signals. The mutex is held at a wait and at
an unlock until `process_loop` returns for the first time, and at none after.
-/

namespace DevAdapter

open Transition

-- ---------------------------------------------------------------------------
-- Ticks after a stop
-- ---------------------------------------------------------------------------

/-- The timeouts that a thread posts before it waits again, once `closeState` is set. -/
def TimerPc.owed (running : Bool) : TimerPc → Nat
  | .unlock | .sleep | .sleeping _ => 1
  | .testClose _ | .clearRunning _ => 0
  | .lock | .test | .park | .waiting _ | .postStop _ => running.toNat

theorem TimerPc.owed_le_one (running : Bool) (pc : TimerPc) : pc.owed running ≤ 1 := by
  cases pc <;> simp [owed, Bool.toNat_le]

namespace Timer

variable {s s' : Timer}

structure Stopping (s : Timer) : Prop where
  closed : s.stopped = true → s.closeState = true
  ticks : s.ticks ≤ 1
  bound : s.stopped = true → s.ticks + s.thread.owed s.running ≤ 1

theorem stopping_init : Stopping .init := ⟨by decide, by decide, by decide⟩

/-- A step of the timer thread that posts nothing owes no more than was owed. -/
theorem Stopping.thread (hi : Stopping s) (hlast : s'.stopped = s.stopped)
    (hclose : s'.closeState = s.closeState) (hticks : s'.ticks = s.ticks)
    (howed : s.closeState = true → s'.thread.owed s'.running ≤ s.thread.owed s.running) :
    Stopping s' := by
  refine ⟨?_, ?_, ?_⟩
  · rw [hlast, hclose]
    exact hi.closed
  · rw [hticks]
    exact hi.ticks
  · intro hs
    rw [hlast] at hs
    have hle := howed (hi.closed hs)
    have := hi.bound hs
    omega

theorem Stopping.step (hi : Stopping s) (h : timer.step s act = some s') : Stopping s' := by
  cases step_move h with
  | callStart | startClose | startRunning =>
    exact ⟨by simp [stopped, ControlPc.starts], hi.ticks, by simp [stopped, ControlPc.starts]⟩
  | startSignal => exact ⟨by simp [stopped], hi.ticks, by simp [stopped]⟩
  | callStop hpc =>
    exact hi.thread (by simp [stopped, hpc, ControlPc.starts]) rfl rfl fun _ => Nat.le_refl _
  | stopClose hpc =>
    by_cases hs : s.stopped = true
    · refine ⟨fun _ => rfl, ?_, fun _ => ?_⟩
      · simpa [hs] using hi.ticks
      · simpa [hs] using hi.bound hs
    · refine ⟨fun _ => rfl, ?_, fun _ => ?_⟩
      · simp [hs]
      · simpa [hs] using TimerPc.owed_le_one _ _
  | timeout hpc =>
    refine ⟨hi.closed, ?_, fun hs => ?_⟩
    · by_cases hs : s.stopped = true
      · have howed := hi.bound hs
        rw [hpc] at howed
        simpa [hs, TimerPc.owed] using howed
      · simpa [hs] using hi.ticks
    · change s.stopped = true at hs
      have howed := hi.bound hs
      rw [hpc] at howed
      simpa [hs, TimerPc.owed] using howed
  | again _ hclose =>
    exact hi.thread rfl rfl rfl fun hclosed => by simp [hclose] at hclosed
  | lock hpc | goOn hpc hrun | stay hpc hrun | park hpc | wake hpc | unlock hpc | sleep hpc
  | close hpc | clearRunning hpc | postStop hpc | spurious hpc =>
    exact hi.thread rfl rfl rfl fun _ => by simp [TimerPc.owed, *]

/-- After `stop_Timer` at most one timeout is posted before the next `Start_Timer`. -/
theorem ticks_le_one (h : timer.Reaches s) : s.ticks ≤ 1 :=
  (h.invariant stopping_init fun _ _ _ _ hi _ hs => hi.step hs).ticks

def stopDuringSleep : List TimerAct :=
  [.call .start, .control, .control, .control] ++ List.replicate 4 .thread ++
    [.call .stop, .control, .thread, .thread]

theorem stopDuringSleep_one : ∃ s, timer.run stopDuringSleep = some s ∧ s.ticks = 1 ∧ s.ticks ≤ 1 := by
  obtain ⟨s, hs, hr⟩ := Machine.exists_run (M := timer) (C := Machine.Always) stopDuringSleep
    (by decide +kernel) (Machine.along_always _ _)
  have htick : (timer.run stopDuringSleep).map Timer.ticks = some 1 := by decide +kernel
  rw [hs] at htick
  exact ⟨s, hs, Option.some.inj htick, ticks_le_one hr⟩

-- ---------------------------------------------------------------------------
-- Timers that are started
-- ---------------------------------------------------------------------------

/-- The thread waits, or is about to, and nobody has woken it. -/
def parked : TimerPc → Bool
  | .park | .waiting false => true
  | _ => false

def clears : TimerPc → Bool
  | .clearRunning _ => true
  | _ => false

def Started (s : Timer) : Prop :=
  s.last = some .start → s.running = true ∧ parked s.thread = false

/-- The timer thread leaves `running` alone after `Start_Timer`, and is not between
its test of `running` and its wait at the signal. -/
def Noticed (s : Timer) : TimerAct → Prop
  | .control => s.control = .startSignal → s.running = true ∧ s.thread ≠ .park
  | .thread => clears s.thread = true → s.last ≠ some .start
  | .call _ | .spurious => True

instance (s : Timer) : Decidable (Started s) := inferInstanceAs (Decidable (_ → _))

instance (s : Timer) : (act : TimerAct) → Decidable (Noticed s act)
  | .control | .thread => inferInstanceAs (Decidable (_ → _))
  | .call _ | .spurious => isTrue trivial

theorem parked_signal {pc : TimerPc} (h : pc ≠ .park) : parked pc.signal = false := by
  cases pc with
  | park => exact absurd rfl h
  | _ => rfl

theorem Started.step (hi : Started s) (hc : Noticed s act) (h : timer.step s act = some s') :
    Started s' := by
  cases step_move h with
  | startSignal hpc =>
    obtain ⟨hrun, hpark⟩ := hc hpc
    exact fun _ => ⟨hrun, parked_signal hpark⟩
  | stopClose => exact nofun
  | startRunning => exact fun hs => ⟨rfl, (hi hs).2⟩
  | callStart | callStop | startClose => exact hi
  | clearRunning hpc => exact fun hs => absurd hs (hc (by rw [hpc]; rfl))
  | stay hpc hrun =>
    intro hs
    cases hrun.symm.trans (hi hs).1
  | park hpc =>
    intro hs
    have hparked := (hi hs).2
    rw [hpc] at hparked
    cases hparked
  | lock | goOn | wake | unlock | sleep | timeout | again | close | postStop | spurious =>
    exact fun hs => ⟨(hi hs).1, rfl⟩

/-- A step against the condition leaves a started timer that does not run. -/
theorem not_started (hc : ¬ Noticed s act) (h : timer.step s act = some s') : ¬ Started s' := by
  intro hs'
  cases step_move h with
  | callStart | callStop | spurious => exact hc trivial
  | startSignal hpc =>
    obtain ⟨hrun, hpark⟩ := hs' rfl
    refine hc fun _ => ⟨hrun, fun hpc => ?_⟩
    simp [hpc, TimerPc.signal, parked] at hpark
  | startClose hpc | startRunning hpc | stopClose hpc =>
    exact hc fun hsignal => by simp [hpc] at hsignal
  | clearRunning hpc => exact hc fun _ hlast => by simpa using (hs' hlast).1
  | lock hpc | goOn hpc | stay hpc | park hpc | wake hpc | unlock hpc | sleep hpc | timeout hpc
  | again hpc | close hpc | postStop hpc =>
    exact hc fun hclears => by simp [hpc, clears] at hclears

/-- A timer that was started runs in the runs all of whose steps meet the
condition, and in no others. -/
theorem started_iff (hs : timer.run acts = some s) :
    timer.Throughout Started .init acts ↔ timer.Along Noticed .init acts :=
  Machine.run_throughout_iff
    (fun _ hr => hr.invariant nofun fun _ _ _ _ hi hc hs => hi.step hc hs)
    (fun _ _ _ _ hc hs => not_started hc hs) hs

theorem stopDuringSleep_started : timer.Throughout Started .init stopDuringSleep := by
  obtain ⟨s, hs⟩ := Option.isSome_iff_exists.mp
    (show (timer.run stopDuringSleep).isSome = true by decide +kernel)
  exact (started_iff hs).mpr (by decide +kernel)

/-- The timer is stopped in its sleep and started once the timer thread has read
`closeState`: the thread clears the `running` that `Start_Timer` has set. -/
def startDuringStop : List TimerAct :=
  stopDuringSleep ++ [.call .start, .control, .control, .control, .thread]

theorem startDuringStop_lost : ¬ ∀ s, timer.Reaches s → Started s := by
  intro h
  obtain ⟨s, hs, hp⟩ := Machine.exists_reaches (M := timer)
    (p := fun s => s.last = some .start && !s.running) startDuringStop (by decide +kernel)
  simp only [Bool.and_eq_true, decide_eq_true_eq, Bool.not_eq_true'] at hp
  rw [(h s hs hp.1).1] at hp
  cases hp.2

-- ---------------------------------------------------------------------------
-- The mutex of the timer thread
-- ---------------------------------------------------------------------------

def locked : TimerPc → Bool
  | .test | .park | .unlock => true
  | _ => false

/-- No wait and no unlock was executed without the mutex. -/
def Disciplined (s : Timer) : Prop := s.unheld = false

/-- The timer thread unlocks and waits only as long as `process_loop` has never returned. -/
def FirstRound (s : Timer) : TimerAct → Prop
  | .thread => s.thread = .park ∨ s.thread = .unlock → s.returned = false
  | .call _ | .control | .spurious => True

instance (s : Timer) : (act : TimerAct) → Decidable (FirstRound s act)
  | .thread => inferInstanceAs (Decidable (_ → _))
  | .call _ | .control | .spurious => isTrue trivial

structure Held (s : Timer) : Prop where
  mutex : s.mutex = (locked s.thread && !s.returned)
  returned : s.returned = true → locked s.thread = true
  disciplined : Disciplined s

theorem held_init : Held .init := ⟨rfl, nofun, rfl⟩

theorem locked_signal (pc : TimerPc) : locked pc.signal = locked pc := by cases pc <;> rfl

theorem Held.step (hi : Held s) (hc : FirstRound s act) (h : timer.step s act = some s') :
    Held s' := by
  obtain ⟨hmutex, hreturned, hunheld⟩ := hi
  cases step_move h with
  | callStart | callStop | startClose | startRunning | stopClose =>
    exact ⟨hmutex, hreturned, hunheld⟩
  | startSignal =>
    refine ⟨?_, ?_, hunheld⟩
    · simpa only [locked_signal] using hmutex
    · simpa only [locked_signal] using hreturned
  | park hpc =>
    have hfirst : s.returned = false := hc (.inl hpc)
    exact ⟨rfl, by simp [hfirst], by simp_all [locked, Disciplined]⟩
  | unlock hpc =>
    have hfirst : s.returned = false := hc (.inr hpc)
    exact ⟨rfl, by simp [hfirst], by simp_all [locked, Disciplined]⟩
  | lock hpc | goOn hpc | stay hpc | wake hpc | sleep hpc | timeout hpc | again hpc | close hpc
  | clearRunning hpc | postStop hpc | spurious hpc =>
    exact ⟨by simp_all [locked], by simp_all [locked], hunheld⟩

theorem not_disciplined (hi : Held s) (hc : ¬ FirstRound s act)
    (h : timer.step s act = some s') : ¬ Disciplined s' := by
  intro hs'
  cases step_move h with
  | callStart | callStop | startClose | startRunning | startSignal | stopClose | spurious =>
    exact hc trivial
  | park hpc | unlock hpc =>
    refine hc fun _ => ?_
    have hmutex := hi.mutex
    simp_all [locked, Disciplined]
  | lock hpc | goOn hpc | stay hpc | wake hpc | sleep hpc | timeout hpc | again hpc | close hpc
  | clearRunning hpc | postStop hpc =>
    exact hc fun hplace => by simp [hpc] at hplace

/-- The mutex is held at every wait and every unlock of the runs that have none
after `process_loop` returns, and of no others. -/
theorem disciplined_iff (hs : timer.run acts = some s) :
    timer.Throughout Disciplined .init acts ↔ timer.Along FirstRound .init acts :=
  have held : ∀ {s}, timer.ReachesUnder FirstRound s → Held s :=
    fun hr => hr.invariant held_init fun _ _ _ _ hi hc hs => hi.step hc hs
  Machine.run_throughout_iff (fun _ hr => (held hr).disciplined)
    (fun _ _ _ hr hc hs => not_disciplined (held hr) hc hs) hs

theorem stopDuringSleep_disciplined : timer.Throughout Disciplined .init stopDuringSleep := by
  obtain ⟨s, hs⟩ := Option.isSome_iff_exists.mp
    (show (timer.run stopDuringSleep).isSome = true by decide +kernel)
  exact (disciplined_iff hs).mpr (by decide +kernel)

theorem secondWait_unheld : ¬ ∀ s, timer.Reaches s → Disciplined s := by
  intro h
  obtain ⟨s, hs, hp⟩ := Machine.exists_reaches (M := timer) (p := (·.unheld))
    (stopDuringSleep ++ List.replicate 4 .thread) (by decide +kernel)
  rw [h s hs] at hp
  cases hp

end Timer

end DevAdapter
