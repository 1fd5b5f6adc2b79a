import DevAdapter.Lib.Machine

/-!
# `init_broker` and `close_broker`

One thread calls `init_broker` and `close_broker` in any order. Every
`init_broker` that gets so far creates an `mqtt_thread`, which runs
`connect_callback` and outlives the call. What the mosquitto and pthread
libraries return is an argument, so that each call of them may fail. A
destroyed mutex or condition variable that is locked, unlocked or waited on
sets `misuse`, and nothing runs after it.
-/

namespace DevAdapter.Broker

open Function (update)
open Transition

/-- The mutexes and condition variables of `g_broker` that are ever destroyed. -/
inductive SyncObject
  | bigMutex
  | contMutex
  | contCond
  | discontMutex
  | discontCond
  deriving DecidableEq, Repr

/-- Those of `cont_waite_ack` and `discont_waite_ack`. -/
abbrev AckObject := { o : SyncObject // o ≠ .bigMutex }

inductive BrokerThread
  | caller
  | mqtt (n : Nat)
  deriving DecidableEq, Repr

/-- A condition variable is `free` unless destroyed. So is at first what is
statically zero. -/
inductive SyncState
  | free
  | held (x : BrokerThread)
  | destroyed
  deriving DecidableEq, Repr

/-- Where the caller is in `init_broker` and `close_broker`; `left` is what is
still to be initialised or destroyed, `ret` the variable of that name. -/
inductive CallerPc
  | idle
  | lockBig
  | testStat
  | libInit
  | new
  | inits (left : List AckObject)
  | create
  | lockCont
  | testMid
  | waiting
  | unlockCont (ret : Int)
  | testConnect (ret : Int)
  | subscribe
  | exit2 (ret : Int)
  | readStat
  | exit0 (ret : Int)
  | destroy (ret : Int) (left : List SyncObject)
  | closeInits (left : List AckObject)
  | closeLock
  | closeTestMid
  | closeWaiting
  | closeUnlock
  | closeDestroy (left : List SyncObject)
  deriving DecidableEq, Repr

/-- Where a thread is in `mqtt_thread` and, from `lock` to `unlock`, in
`connect_callback`. -/
inductive MqttPc
  | absent
  | connect
  | loop
  | lock (rc : Int)
  | setMid (rc : Int)
  | setStat (rc : Int)
  | unlock
  | exit
  | exitTestMid
  | exitLock
  | exitSetMid
  | exitUnlock
  | ended
  deriving DecidableEq, Repr

/-- What a failed `init_broker` is to leave as it was. -/
structure BrokerData where
  connectStat : Int
  sync : SyncObject → SyncState

structure InitReturn where
  ret : Int
  before : BrokerData
  after : BrokerData

structure Lifecycle where
  data : BrokerData
  -- `mid` of `cont_waite_ack` and `discont_waite_ack`
  contMid : Int
  discontMid : Int
  caller : CallerPc
  -- the first `threads` have been created
  mqtt : Nat → MqttPc
  threads : Nat
  -- a destroyed object was used
  misuse : Bool
  -- trace: what the last call of `init_broker` found
  before : BrokerData
  -- trace: the calls that have returned
  returned : List InitReturn
  closed : Nat

structure LibAnswer where
  -- the result, with `NULL` as a nonzero one
  ret : Int := 0
  errno : Int := 0
  timedOut : Bool := false
  -- `mosquitto_loop_forever` returns, and does not call back
  leaves : Bool := false

inductive LifecycleAct
  | initBroker
  | closeBroker
  | caller (a : LibAnswer)
  | mqtt (n : Nat) (a : LibAnswer)

def eexist : Int := 17

def etimedout : Int := 110

def initOrder : List AckObject :=
  [⟨.contMutex, nofun⟩, ⟨.contCond, nofun⟩, ⟨.discontMutex, nofun⟩, ⟨.discontCond, nofun⟩]

def closeInitOrder : List AckObject := [⟨.discontMutex, nofun⟩, ⟨.discontCond, nofun⟩]

/-- What both functions destroy at their ends, in their order. -/
def destroyOrder : List SyncObject :=
  [.bigMutex, .discontMutex, .contMutex, .discontCond, .contCond]

namespace Lifecycle

def init : Lifecycle where
  data := ⟨-1, fun _ => .free⟩
  contMid := 0
  discontMid := 0
  caller := .idle
  mqtt := fun _ => .absent
  threads := 0
  misuse := false
  before := ⟨-1, fun _ => .free⟩
  returned := []
  closed := 0

@[simp] def goto (s : Lifecycle) (pc : CallerPc) : Lifecycle := { s with caller := pc }

@[simp] def gotoMqtt (s : Lifecycle) (n : Nat) (pc : MqttPc) : Lifecycle :=
  { s with mqtt := update s.mqtt n pc }

@[simp] def setSync (s : Lifecycle) (o : SyncObject) (state : SyncState) : Lifecycle :=
  { s with data := { s.data with sync := update s.data.sync o state } }

@[simp] def setStat (s : Lifecycle) (rc : Int) : Lifecycle :=
  { s with data := { s.data with connectStat := rc } }

@[simp] def misused (s : Lifecycle) : Lifecycle := { s with misuse := true }

def lock (s : Lifecycle) (x : BrokerThread) (o : SyncObject) (next : Lifecycle → Lifecycle) :
    Option Lifecycle :=
  match s.data.sync o with
  | .free => some (next (s.setSync o (.held x)))
  | .held _ => none
  | .destroyed => some s.misused

def unlock (s : Lifecycle) (o : SyncObject) (next : Lifecycle → Lifecycle) : Option Lifecycle :=
  if s.data.sync o = .destroyed then some s.misused else some (next (s.setSync o .free))

/-- `pthread_cond_timedwait` up to its wait, from which it may return at any time. -/
def wait (s : Lifecycle) (cond mutex : SyncObject) (next : Lifecycle → Lifecycle) :
    Option Lifecycle :=
  if s.data.sync cond = .destroyed ∨ s.data.sync mutex = .destroyed then some s.misused
  else some (next (s.setSync mutex .free))

/-- `pthread_mutex_destroy` and `pthread_cond_destroy`; a locked mutex is left
as it is, with the result `EBUSY`. -/
def destroy (s : Lifecycle) (o : SyncObject) : Lifecycle :=
  match s.data.sync o with
  | .held _ => s
  | _ => s.setSync o .destroyed

def returns (s : Lifecycle) (ret : Int) : Lifecycle :=
  { s with caller := .idle, returned := s.returned ++ [⟨ret, s.before, s.data⟩] }

def callerStep (s : Lifecycle) (a : LibAnswer) : Option Lifecycle :=
  match s.caller with
  | .idle => none
  -- `init_broker`
  | .lockBig => s.lock .caller .bigMutex (·.goto .testStat)
  | .testStat => some (s.goto (if s.data.connectStat = 0 then .exit0 (-eexist) else .libInit))
  | .libInit => some (s.goto (if a.ret = 0 then .new else .exit0 (-a.errno)))
  | .new => some (s.goto (if a.ret = 0 then .inits initOrder else .exit0 (-a.errno)))
  | .inits (o :: left) =>
    some (if a.ret = 0 then (s.setSync o .free).goto (.inits left) else s.goto (.exit0 a.ret))
  | .inits [] => some { s with contMid := -1, caller := .create }
  | .create =>
    some (if a.ret = 0 then
      { s with
        mqtt := update s.mqtt s.threads .connect
        threads := s.threads + 1
        caller := .lockCont }
    else s.goto (.exit0 a.ret))
  | .lockCont => s.lock .caller .contMutex (·.goto .testMid)
  | .testMid =>
    if s.contMid = 0 then some (s.goto (.unlockCont 0))
    else s.wait .contCond .contMutex (·.goto .waiting)
  | .waiting =>
    s.lock .caller .contMutex (·.goto (.unlockCont (if a.timedOut then etimedout else 0)))
  | .unlockCont ret => s.unlock .contMutex (·.goto (.testConnect ret))
  | .testConnect ret =>
    some (s.goto (if ret ≠ 0 ∨ s.data.connectStat ≠ 0 then .exit2 ret else .subscribe))
  -- the result of `waite_ack_timeout`
  | .subscribe => some (s.goto (.exit2 a.ret))
  | .exit2 ret => some (s.goto (if s.data.connectStat = 0 then .exit0 ret else .readStat))
  -- `connect_stat` is read once more
  | .readStat => some (s.goto (.exit0 s.data.connectStat))
  | .exit0 ret =>
    s.unlock .bigMutex fun s => if ret = 0 then s.returns 0 else s.goto (.destroy ret destroyOrder)
  | .destroy ret (o :: left) => some ((s.destroy o).goto (.destroy ret left))
  | .destroy ret [] => some (s.returns ret)
  -- `close_broker`, which ignores the results of the initialisations
  | .closeInits (o :: left) =>
    some ((if a.ret = 0 then s.setSync o .free else s).goto (.closeInits left))
  | .closeInits [] => some { s with discontMid := 1, caller := .closeLock }
  | .closeLock => s.lock .caller .discontMutex (·.goto .closeTestMid)
  | .closeTestMid =>
    if s.discontMid = 0 then some (s.goto .closeUnlock)
    else s.wait .discontCond .discontMutex (·.goto .closeWaiting)
  | .closeWaiting => s.lock .caller .discontMutex (·.goto .closeUnlock)
  | .closeUnlock => s.unlock .discontMutex (·.goto (.closeDestroy destroyOrder))
  | .closeDestroy (o :: left) => some ((s.destroy o).goto (.closeDestroy left))
  | .closeDestroy [] => some { s with caller := .idle, closed := s.closed + 1 }

/-- The `n`-th `mqtt_thread`. A signal has no effect of its own, since a wait
may return at any time. -/
def mqttStep (s : Lifecycle) (n : Nat) (a : LibAnswer) : Option Lifecycle :=
  match s.mqtt n with
  | .absent | .ended => none
  | .connect => some (s.gotoMqtt n (if a.ret = 0 then .loop else .exit))
  | .loop => some (s.gotoMqtt n (if a.leaves then .exit else .lock a.ret))
  | .lock rc => s.lock (.mqtt n) .contMutex (·.gotoMqtt n (.setMid rc))
  | .setMid rc => some ({ s with contMid := 0 }.gotoMqtt n (.setStat rc))
  | .setStat rc => some ((s.setStat rc).gotoMqtt n .unlock)
  | .unlock => s.unlock .contMutex (·.gotoMqtt n .loop)
  | .exit => some ((s.setStat (-1)).gotoMqtt n .exitTestMid)
  | .exitTestMid => some (s.gotoMqtt n (if s.discontMid = 0 then .ended else .exitLock))
  | .exitLock => s.lock (.mqtt n) .discontMutex (·.gotoMqtt n .exitSetMid)
  | .exitSetMid => some ({ s with discontMid := 0 }.gotoMqtt n .exitUnlock)
  | .exitUnlock => s.unlock .discontMutex (·.gotoMqtt n .ended)

def step (s : Lifecycle) (act : LifecycleAct) : Option Lifecycle :=
  if s.misuse then none
  else match act with
    | .initBroker =>
      match s.caller with
      | .idle => some { s with caller := .lockBig, before := s.data }
      | _ => none
    | .closeBroker =>
      match s.caller with
      | .idle => some (s.goto (.closeInits closeInitOrder))
      | _ => none
    | .caller a => s.callerStep a
    | .mqtt n a => s.mqttStep n a

end Lifecycle

def lifecycle : Machine Lifecycle LifecycleAct := ⟨.init, Lifecycle.step⟩

-- ---------------------------------------------------------------------------
-- What a step can do
-- ---------------------------------------------------------------------------

/-- In `init_broker`, between the lock and the unlock of `big_mutex`. -/
def CallerPc.working : CallerPc → Bool
  | .testStat | .libInit | .new | .inits _ | .create | .lockCont | .testMid | .waiting
  | .unlockCont _ | .testConnect _ | .subscribe | .exit2 _ | .readStat => true
  | _ => false

def CallerPc.inside : CallerPc → Bool
  | .exit0 _ => true
  | pc => pc.working

/-- In `close_broker`, before anything is destroyed. -/
def CallerPc.closing : CallerPc → Bool
  | .closeInits _ | .closeLock | .closeTestMid | .closeWaiting | .closeUnlock => true
  | _ => false

def CallerPc.fails : CallerPc → Bool
  | .exit0 ret => ret ≠ 0
  | .destroy _ _ => true
  | _ => false

namespace Lifecycle

def SmoothAt (s : Lifecycle) (a : LibAnswer) : CallerPc → Prop
  | .testStat => s.data.connectStat ≠ 0
  | .libInit | .new => a.ret = 0 ∨ a.errno = 0
  | .inits (_ :: _) | .create => a.ret = 0
  | .exit2 ret => s.data.connectStat = 0 → ret = 0
  | .readStat => s.data.connectStat = 0
  | _ => True

/-- Objects other than `big_mutex` were used, and none destroyed. -/
structure Uses (s s' : Lifecycle) : Prop where
  returned : s'.returned = s.returned
  closed : s'.closed = s.closed
  before : s'.before = s.before
  misuse : s'.misuse = s.misuse
  big : s'.data.sync .bigMutex = s.data.sync .bigMutex
  sync : ∀ o, s'.data.sync o = .destroyed → s.data.sync o = .destroyed

inductive CallerMove (s : Lifecycle) (a : LibAnswer) : Lifecycle → Prop
  | misused {o} (hdestroyed : s.data.sync o = .destroyed) : CallerMove s a s.misused
  | lockBig (hpc : s.caller = .lockBig) (hfree : s.data.sync .bigMutex = .free) :
    CallerMove s a ((s.setSync .bigMutex (.held .caller)).goto .testStat)
  | inside {s'} (hold : s.caller.working = true) (hnew : s'.caller.inside = true)
      (hsmooth : s'.caller.fails = false ↔ SmoothAt s a s.caller) (huses : Uses s s') :
    CallerMove s a s'
  | succeed (hpc : s.caller = .exit0 0) : CallerMove s a ((s.setSync .bigMutex .free).returns 0)
  | fail {ret} (hpc : s.caller = .exit0 ret) (hret : ret ≠ 0) :
    CallerMove s a ((s.setSync .bigMutex .free).goto (.destroy ret destroyOrder))
  | destroy {ret o left} (hpc : s.caller = .destroy ret (o :: left)) :
    CallerMove s a ((s.destroy o).goto (.destroy ret left))
  | failed {ret} (hpc : s.caller = .destroy ret []) : CallerMove s a (s.returns ret)
  | closing {s'} (hold : s.caller.closing = true)
      (hnew : s'.caller.closing = true ∨ s'.caller = .closeDestroy destroyOrder)
      (huses : Uses s s') : CallerMove s a s'
  | closeDestroy {o left} (hpc : s.caller = .closeDestroy (o :: left)) :
    CallerMove s a ((s.destroy o).goto (.closeDestroy left))
  | closed (hpc : s.caller = .closeDestroy []) :
    CallerMove s a { s with caller := .idle, closed := s.closed + 1 }

variable {s s' : Lifecycle}

theorem uses_goto (s : Lifecycle) (pc : CallerPc) : Uses s (s.goto pc) :=
  ⟨rfl, rfl, rfl, rfl, rfl, fun _ => id⟩

theorem uses_setSync (s : Lifecycle) {o : SyncObject} {state : SyncState} (ho : o ≠ .bigMutex)
    (hstate : state ≠ .destroyed) : Uses s (s.setSync o state) where
  returned := rfl
  closed := rfl
  before := rfl
  misuse := rfl
  big := Function.update_of_ne (Ne.symm ho) ..
  sync p hp := by
    by_cases hpo : p = o
    · subst hpo
      exact absurd ((Function.update_self ..).symm.trans hp) hstate
    · exact (Function.update_of_ne hpo ..).symm.trans hp

theorem Uses.trans {s'' : Lifecycle} (h : Uses s s') (h' : Uses s' s'') : Uses s s'' where
  returned := h'.returned.trans h.returned
  closed := h'.closed.trans h.closed
  before := h'.before.trans h.before
  misuse := h'.misuse.trans h.misuse
  big := h'.big.trans h.big
  sync o ho := h.sync o (h'.sync o ho)

theorem lock_cases {next : Lifecycle → Lifecycle} (h : s.lock x o next = some s') :
    s.data.sync o = .free ∧ s' = next (s.setSync o (.held x)) ∨
    s.data.sync o = .destroyed ∧ s' = s.misused := by
  unfold lock at h
  split at h <;> cases h
  · exact .inl ⟨‹_›, rfl⟩
  · exact .inr ⟨‹_›, rfl⟩

theorem unlock_cases {next : Lifecycle → Lifecycle} (h : s.unlock o next = some s') :
    s' = next (s.setSync o .free) ∨ s.data.sync o = .destroyed ∧ s' = s.misused := by
  unfold unlock at h
  split at h <;> cases h
  · exact .inr ⟨‹_›, rfl⟩
  · exact .inl rfl

theorem wait_cases {c m : SyncObject} {next : Lifecycle → Lifecycle}
    (h : s.wait c m next = some s') :
    s' = next (s.setSync m .free) ∨ ∃ o, s.data.sync o = .destroyed ∧ s' = s.misused := by
  unfold wait at h
  split at h <;> cases h
  · rename_i hdestroyed
    rcases hdestroyed with hcond | hmutex
    · exact .inr ⟨c, hcond, rfl⟩
    · exact .inr ⟨m, hmutex, rfl⟩
  · exact .inl rfl

section

variable {a : LibAnswer} {pc pc₀ : CallerPc} {o : SyncObject} {state : SyncState}

theorem inside_goto (hpc : s.caller = pc₀) (hold : pc₀.working = true) (hnew : pc.inside = true)
    (hsmooth : pc.fails = false ↔ SmoothAt s a pc₀) : CallerMove s a (s.goto pc) := by
  subst hpc
  exact .inside hold hnew hsmooth (uses_goto s pc)

theorem inside_setSync (hpc : s.caller = pc₀) (hold : pc₀.working = true) (hnew : pc.inside = true)
    (hsmooth : pc.fails = false ↔ SmoothAt s a pc₀) (ho : o ≠ .bigMutex)
    (hstate : state ≠ .destroyed) : CallerMove s a ((s.setSync o state).goto pc) := by
  subst hpc
  exact .inside hold hnew hsmooth ((uses_setSync s ho hstate).trans (uses_goto _ pc))

theorem closing_setSync (hpc : s.caller = pc₀) (hold : pc₀.closing = true)
    (hnew : pc.closing = true ∨ pc = .closeDestroy destroyOrder) (ho : o ≠ .bigMutex)
    (hstate : state ≠ .destroyed) : CallerMove s a ((s.setSync o state).goto pc) := by
  subst hpc
  exact .closing hold hnew ((uses_setSync s ho hstate).trans (uses_goto _ pc))

end

section

variable {a : LibAnswer} {o : SyncObject} {next : Lifecycle → Lifecycle}

theorem lock_move (h : s.lock x o next = some s')
    (hmove : s.data.sync o = .free → CallerMove s a (next (s.setSync o (.held x)))) :
    CallerMove s a s' := by
  rcases lock_cases h with ⟨hfree, rfl⟩ | ⟨hdestroyed, rfl⟩
  · exact hmove hfree
  · exact .misused hdestroyed

theorem unlock_move (h : s.unlock o next = some s')
    (hmove : CallerMove s a (next (s.setSync o .free))) : CallerMove s a s' := by
  rcases unlock_cases h with rfl | ⟨hdestroyed, rfl⟩
  · exact hmove
  · exact .misused hdestroyed

theorem wait_move {cond : SyncObject} (h : s.wait cond o next = some s')
    (hmove : CallerMove s a (next (s.setSync o .free))) : CallerMove s a s' := by
  rcases wait_cases h with rfl | ⟨_, hdestroyed, rfl⟩
  · exact hmove
  · exact .misused hdestroyed

end

theorem callerStep_move (h : s.callerStep a = some s') : CallerMove s a s' := by
  cases hpc : s.caller with
  | idle => simp [callerStep, hpc] at h
  | lockBig =>
    simp only [callerStep, hpc] at h
    exact lock_move h fun hfree => .lockBig hpc hfree
  | testStat =>
    simp only [callerStep, hpc] at h
    cases h
    refine inside_goto hpc rfl ?_ ?_
    · split <;> rfl
    · split <;> simp_all [SmoothAt, CallerPc.fails, eexist]
  | libInit | new =>
    simp only [callerStep, hpc] at h
    cases h
    refine inside_goto hpc rfl ?_ ?_
    · split <;> rfl
    · split <;> simp_all [SmoothAt, CallerPc.fails]
  | inits left =>
    cases left with
    | nil =>
      simp only [callerStep, hpc] at h
      cases h
      exact .inside (by rw [hpc]; rfl) rfl (by simp [hpc, SmoothAt, CallerPc.fails])
        ⟨rfl, rfl, rfl, rfl, rfl, fun _ => id⟩
    | cons o left =>
      simp only [callerStep, hpc] at h
      cases h
      split
      · exact inside_setSync hpc rfl rfl (by simp_all [SmoothAt, CallerPc.fails]) o.property nofun
      · exact inside_goto hpc rfl rfl (by simp_all [SmoothAt, CallerPc.fails])
  | create =>
    simp only [callerStep, hpc] at h
    cases h
    split
    · exact .inside (by rw [hpc]; rfl) rfl (by simp_all [SmoothAt, CallerPc.fails])
        ⟨rfl, rfl, rfl, rfl, rfl, fun _ => id⟩
    · exact inside_goto hpc rfl rfl (by simp_all [SmoothAt, CallerPc.fails])
  | lockCont | waiting =>
    simp only [callerStep, hpc] at h
    refine lock_move h fun _ => ?_
    exact inside_setSync hpc rfl rfl (by simp [SmoothAt, CallerPc.fails]) nofun nofun
  | testMid =>
    simp only [callerStep, hpc] at h
    split at h
    · cases h
      exact inside_goto hpc rfl rfl (by simp [SmoothAt, CallerPc.fails])
    · refine wait_move h ?_
      exact inside_setSync hpc rfl rfl (by simp [SmoothAt, CallerPc.fails]) nofun nofun
  | unlockCont ret =>
    simp only [callerStep, hpc] at h
    refine unlock_move h ?_
    exact inside_setSync hpc rfl rfl (by simp [SmoothAt, CallerPc.fails]) nofun nofun
  | testConnect ret =>
    simp only [callerStep, hpc] at h
    cases h
    refine inside_goto hpc rfl ?_ ?_
    · split <;> rfl
    · split <;> simp [SmoothAt, CallerPc.fails]
  | subscribe | readStat =>
    simp only [callerStep, hpc] at h
    cases h
    exact inside_goto hpc rfl rfl (by simp [SmoothAt, CallerPc.fails])
  | exit2 ret =>
    simp only [callerStep, hpc] at h
    cases h
    refine inside_goto hpc rfl ?_ ?_
    · split <;> rfl
    · split <;> simp_all [SmoothAt, CallerPc.fails]
  | exit0 ret =>
    simp only [callerStep, hpc] at h
    refine unlock_move h ?_
    split <;> rename_i hret
    · subst hret
      exact .succeed hpc
    · exact .fail hpc hret
  | destroy ret left =>
    cases left with
    | nil =>
      simp only [callerStep, hpc] at h
      cases h
      exact .failed hpc
    | cons o left =>
      simp only [callerStep, hpc] at h
      cases h
      exact .destroy hpc
  | closeInits left =>
    cases left with
    | nil =>
      simp only [callerStep, hpc] at h
      cases h
      exact .closing (by rw [hpc]; rfl) (.inl rfl) ⟨rfl, rfl, rfl, rfl, rfl, fun _ => id⟩
    | cons o left =>
      simp only [callerStep, hpc] at h
      cases h
      split
      · exact closing_setSync hpc rfl (.inl rfl) o.property nofun
      · exact .closing (by rw [hpc]; rfl) (.inl rfl) (uses_goto s _)
  | closeLock | closeWaiting =>
    simp only [callerStep, hpc] at h
    exact lock_move h fun _ => closing_setSync hpc rfl (.inl rfl) nofun nofun
  | closeTestMid =>
    simp only [callerStep, hpc] at h
    split at h
    · cases h
      exact .closing (by rw [hpc]; rfl) (.inl rfl) (uses_goto s _)
    · exact wait_move h (closing_setSync hpc rfl (.inl rfl) nofun nofun)
  | closeUnlock =>
    simp only [callerStep, hpc] at h
    exact unlock_move h (closing_setSync hpc rfl (.inr rfl) nofun nofun)
  | closeDestroy left =>
    cases left with
    | nil =>
      simp only [callerStep, hpc] at h
      cases h
      exact .closed hpc
    | cons o left =>
      simp only [callerStep, hpc] at h
      cases h
      exact .closeDestroy hpc

theorem mqttStep_uses (h : s.mqttStep n a = some s') :
    s'.caller = s.caller ∧ Uses s s' ∨ ∃ o, s.data.sync o = .destroyed ∧ s' = s.misused := by
  have huses : ∀ {o state pc}, o ≠ SyncObject.bigMutex → state ≠ SyncState.destroyed →
      Uses s ((s.setSync o state).gotoMqtt n pc) :=
    fun ho hstate => (uses_setSync s ho hstate).trans ⟨rfl, rfl, rfl, rfl, rfl, fun _ => id⟩
  cases hpc : s.mqtt n with
  | absent | ended => simp [mqttStep, hpc] at h
  | lock | exitLock =>
    simp only [mqttStep, hpc] at h
    rcases lock_cases h with ⟨-, rfl⟩ | ⟨hdestroyed, rfl⟩
    · exact .inl ⟨rfl, huses nofun nofun⟩
    · exact .inr ⟨_, hdestroyed, rfl⟩
  | unlock | exitUnlock =>
    simp only [mqttStep, hpc] at h
    rcases unlock_cases h with rfl | ⟨hdestroyed, rfl⟩
    · exact .inl ⟨rfl, huses nofun nofun⟩
    · exact .inr ⟨_, hdestroyed, rfl⟩
  | connect | loop | setMid | setStat | exit | exitTestMid | exitSetMid =>
    simp only [mqttStep, hpc] at h
    cases h
    exact .inl ⟨rfl, rfl, rfl, rfl, rfl, rfl, fun _ => id⟩

/-- A step of any thread; the `mqtt_thread`s do not concern the caller. -/
inductive Move (s : Lifecycle) : LifecycleAct → Lifecycle → Prop
  | initBroker (hpc : s.caller = .idle) :
    Move s .initBroker { s with caller := .lockBig, before := s.data }
  | closeBroker (hpc : s.caller = .idle) :
    Move s .closeBroker (s.goto (.closeInits closeInitOrder))
  | caller {a s'} (h : CallerMove s a s') : Move s (.caller a) s'
  | mqtt {n a s'} (hcaller : s'.caller = s.caller) (huses : Uses s s') : Move s (.mqtt n a) s'
  | misused {n a o} (hdestroyed : s.data.sync o = .destroyed) : Move s (.mqtt n a) s.misused

theorem step_move (h : lifecycle.step s act = some s') : s.misuse = false ∧ Move s act s' := by
  by_cases hmisuse : s.misuse = true
  · simp [lifecycle, Lifecycle.step, hmisuse] at h
  · refine ⟨by simpa using hmisuse, ?_⟩
    simp only [lifecycle, Lifecycle.step] at h
    rw [if_neg hmisuse] at h
    cases act with
    | initBroker | closeBroker =>
      simp only at h
      split at h <;> rename_i hpc
      · rw [← Option.some.inj h]
        constructor
        exact hpc
      · cases h
    | caller a => exact .caller (callerStep_move h)
    | mqtt n a =>
      rcases mqttStep_uses h with ⟨hcaller, huses⟩ | ⟨o, hdestroyed, rfl⟩
      · exact .mqtt hcaller huses
      · exact .misused hdestroyed

end Lifecycle

end DevAdapter.Broker
