import DevAdapter.Lib.Machine
import DevAdapter.Lib.Mutex
import DevAdapter.Lib.Word
import Mathlib.Data.List.Nodup

/-!
# The count-down latch

`counterWait` waits under a mutex until `counterDown` has brought the counter to
0. The call that does so signals the condition once, which wakes one thread, and
nothing wakes the others: the latch works in the runs in which no more than one
thread waits when the signal comes.
-/

namespace DevAdapter

open Function (update)
open Transition
open Word32 (wrap32)

inductive LatchPc
  | idle
  | lockWait
  | testWait
  -- in `pthread_cond_wait`: not woken yet, and woken without the mutex
  | parked
  | woken
  | unlockWait
  | waited
  | lockDown
  | decrement
  | testDown
  | signal
  | unlockDown
  | counted
  deriving DecidableEq, Repr

namespace LatchPc

def outside : LatchPc → Bool
  | .idle | .waited | .counted => true
  | _ => false

def passed : LatchPc → Bool
  | .unlockWait | .waited => true
  | _ => false

def critical : LatchPc → Bool
  | .testWait | .unlockWait | .decrement | .testDown | .signal | .unlockDown => true
  | _ => false

end LatchPc

/-- `struct g_cntDown_para` and the threads that use it. -/
structure Latch where
  counter : Int
  -- who has locked `mutex_`
  owner : Option Nat
  -- who waits at `cond_`
  waiting : List Nat
  pc : Nat → LatchPc
  -- trace: calls of `counterDown` that have counted
  downs : Nat

/-- Calls, steps of a thread by itself, a signal with the thread it wakes, and a
wake-up without a signal. -/
inductive LatchAct
  | counterWait (t : Nat)
  | counterDown (t : Nat)
  | run (t : Nat)
  | wake (t : Nat) (waiter : Nat)
  | spurious (waiter : Nat)
  deriving DecidableEq, Repr

namespace Latch

def initCountDown (counter : Int) : Latch where
  counter := counter
  owner := none
  waiting := []
  pc := fun _ => .idle
  downs := 0

@[simp] def setPc (s : Latch) (t : Nat) (place : LatchPc) : Latch :=
  { s with pc := update s.pc t place }

def lock (s : Latch) (t : Nat) (place : LatchPc) : Option Latch :=
  if s.owner = none then some { s.setPc t place with owner := some t } else none

def unlock (s : Latch) (t : Nat) (place : LatchPc) : Latch :=
  { s.setPc t place with owner := none }

def advance (s : Latch) (t : Nat) : Option Latch :=
  match s.pc t with
  | .lockWait | .woken => s.lock t .testWait
  | .testWait =>
    if 0 < s.counter then
      some { s.unlock t .parked with waiting := s.waiting ++ [t] }
    else some (s.setPc t .unlockWait)
  | .unlockWait => some (s.unlock t .waited)
  | .lockDown => s.lock t .decrement
  | .decrement =>
    some { s.setPc t .testDown with counter := wrap32 (s.counter - 1), downs := s.downs + 1 }
  | .testDown => some (s.setPc t (if s.counter = 0 then .signal else .unlockDown))
  -- a signal that finds nobody
  | .signal => if s.waiting = [] then some (s.setPc t .unlockDown) else none
  | .unlockDown => some (s.unlock t .counted)
  | .idle | .parked | .waited | .counted => none

def wakeUp (s : Latch) (waiter : Nat) : Option Latch :=
  if waiter ∈ s.waiting then
    some { s.setPc waiter .woken with waiting := s.waiting.erase waiter }
  else none

def step (s : Latch) : LatchAct → Option Latch
  | .counterWait t => if (s.pc t).outside then some (s.setPc t .lockWait) else none
  | .counterDown t => if (s.pc t).outside then some (s.setPc t .lockDown) else none
  | .run t => s.advance t
  | .wake t waiter =>
    if s.pc t = .signal then (s.setPc t .unlockDown).wakeUp waiter else none
  | .spurious waiter => s.wakeUp waiter

end Latch

def latch (n : Int) : Machine Latch LatchAct where
  init := .initCountDown n
  step := Latch.step

namespace Latch

variable {n : Int} {s s' : Latch} {act : LatchAct}

-- ---------------------------------------------------------------------------
-- What a step can do
-- ---------------------------------------------------------------------------

inductive Move (s : Latch) : LatchAct → Latch → Prop
  | callWait (hout : (s.pc t).outside = true) : Move s (.counterWait t) (s.setPc t .lockWait)
  | callDown (hout : (s.pc t).outside = true) : Move s (.counterDown t) (s.setPc t .lockDown)
  | lock (hpc : s.pc t = .lockWait ∨ s.pc t = .woken) (hfree : s.owner = none) :
    Move s (.run t) { s.setPc t .testWait with owner := some t }
  | park (hpc : s.pc t = .testWait) (hpos : 0 < s.counter) :
    Move s (.run t) { s.unlock t .parked with waiting := s.waiting ++ [t] }
  | pass (hpc : s.pc t = .testWait) (hopen : s.counter ≤ 0) :
    Move s (.run t) (s.setPc t .unlockWait)
  | leaveWait (hpc : s.pc t = .unlockWait) : Move s (.run t) (s.unlock t .waited)
  | lockDown (hpc : s.pc t = .lockDown) (hfree : s.owner = none) :
    Move s (.run t) { s.setPc t .decrement with owner := some t }
  | decrement (hpc : s.pc t = .decrement) :
    Move s (.run t) { s.setPc t .testDown with
      counter := wrap32 (s.counter - 1), downs := s.downs + 1 }
  | toSignal (hpc : s.pc t = .testDown) (hzero : s.counter = 0) :
    Move s (.run t) (s.setPc t .signal)
  | noSignal (hpc : s.pc t = .testDown) (hne : s.counter ≠ 0) :
    Move s (.run t) (s.setPc t .unlockDown)
  | unheard (hpc : s.pc t = .signal) (hnone : s.waiting = []) :
    Move s (.run t) (s.setPc t .unlockDown)
  | leaveDown (hpc : s.pc t = .unlockDown) : Move s (.run t) (s.unlock t .counted)
  | wake (hpc : s.pc t = .signal) (hw : w ∈ s.waiting) :
    Move s (.wake t w) { s with
      waiting := s.waiting.erase w, pc := update (update s.pc t .unlockDown) w .woken }
  | spurious (hw : w ∈ s.waiting) :
    Move s (.spurious w) { s with
      waiting := s.waiting.erase w, pc := update s.pc w .woken }

theorem lock_move (h : s.lock t place = some s') :
    s.owner = none ∧ s' = { s.setPc t place with owner := some t } := by
  obtain ⟨hfree, heq⟩ := Option.ite_none_right_eq_some.mp h
  exact ⟨hfree, (Option.some.inj heq).symm⟩

theorem wakeUp_move (h : s.wakeUp w = some s') :
    w ∈ s.waiting ∧ s' = { s.setPc w .woken with waiting := s.waiting.erase w } := by
  obtain ⟨hw, heq⟩ := Option.ite_none_right_eq_some.mp h
  exact ⟨hw, (Option.some.inj heq).symm⟩

theorem advance_move (h : s.advance t = some s') : Move s (.run t) s' := by
  unfold advance at h
  split at h
  case h_1 hpc =>
    obtain ⟨hfree, rfl⟩ := lock_move h
    exact .lock (.inl hpc) hfree
  case h_2 hpc =>
    obtain ⟨hfree, rfl⟩ := lock_move h
    exact .lock (.inr hpc) hfree
  case h_3 hpc =>
    split at h <;> obtain rfl := Option.some.inj h
    · exact .park hpc ‹_›
    · exact .pass hpc (Int.not_lt.mp ‹_›)
  case h_4 hpc =>
    obtain rfl := Option.some.inj h
    exact .leaveWait hpc
  case h_5 hpc =>
    obtain ⟨hfree, rfl⟩ := lock_move h
    exact .lockDown hpc hfree
  case h_6 hpc =>
    obtain rfl := Option.some.inj h
    exact .decrement hpc
  case h_7 hpc =>
    obtain rfl := Option.some.inj h
    split
    · exact .toSignal hpc ‹_›
    · exact .noSignal hpc ‹_›
  case h_8 hpc =>
    obtain ⟨hnone, heq⟩ := Option.ite_none_right_eq_some.mp h
    obtain rfl := Option.some.inj heq
    exact .unheard hpc hnone
  case h_9 hpc =>
    obtain rfl := Option.some.inj h
    exact .leaveDown hpc
  all_goals cases h

theorem step_move (h : s.step act = some s') : Move s act s' := by
  cases act with
  | counterWait t =>
    obtain ⟨hout, heq⟩ := Option.ite_none_right_eq_some.mp h
    obtain rfl := Option.some.inj heq
    exact .callWait hout
  | counterDown t =>
    obtain ⟨hout, heq⟩ := Option.ite_none_right_eq_some.mp h
    obtain rfl := Option.some.inj heq
    exact .callDown hout
  | run t => exact advance_move h
  | wake t w =>
    obtain ⟨hpc, heq⟩ := Option.ite_none_right_eq_some.mp h
    obtain ⟨hw, rfl⟩ := wakeUp_move heq
    exact .wake hpc hw
  | spurious w =>
    obtain ⟨hw, rfl⟩ := wakeUp_move h
    exact .spurious hw

-- ---------------------------------------------------------------------------
-- The mutex and the threads that wait
-- ---------------------------------------------------------------------------

/-- The threads that wait at the condition are those in `pthread_cond_wait`. -/
structure Waits (waiting : List Nat) (pc : Nat → LatchPc) : Prop where
  parked : ∀ t, pc t = .parked ↔ t ∈ waiting
  nodup : waiting.Nodup

section
variable {pc : Nat → LatchPc} {ws : List Nat} {place : LatchPc}

theorem Waits.move (h : Waits ws pc) (ht : pc t ≠ .parked) (hplace : place ≠ .parked) :
    Waits ws (update pc t place) := by
  refine ⟨fun x => ?_, h.nodup⟩
  rw [map_update (p := (· = LatchPc.parked)) x (by simp [ht, hplace])]
  exact h.parked x

theorem Waits.park (h : Waits ws pc) (ht : pc t ≠ .parked) :
    Waits (ws ++ [t]) (update pc t .parked) := by
  have hnew : t ∉ ws := fun hmem => ht ((h.parked t).mpr hmem)
  refine ⟨(Function.forall_update_iff pc fun x p => p = .parked ↔ x ∈ ws ++ [t]).mpr ⟨?_, ?_⟩, ?_⟩
  · simp
  · intro x hx
    simp [h.parked x, hx]
  · simpa [List.concat_eq_append] using h.nodup.concat hnew

theorem Waits.wakeUp (h : Waits ws pc) (hplace : place ≠ .parked) :
    Waits (ws.erase w) (update pc w place) := by
  refine ⟨(Function.forall_update_iff pc fun x p => p = .parked ↔ x ∈ ws.erase w).mpr ⟨?_, ?_⟩,
    h.nodup.erase w⟩
  · simp [hplace, h.nodup.mem_erase_iff]
  · intro x hx
    simp [h.parked x, h.nodup.mem_erase_iff, hx]

end

/-- Whoever is between a lock and an unlock owns the mutex, the counter is what
the calls have left of `n`, it is 0 when a thread is about to signal, and no
thread has passed before `n` calls have counted. -/
structure Sound (n : Int) (s : Latch) : Prop where
  exclusive : Mutex.Excludes LatchPc.critical s.pc s.owner
  waits : Waits s.waiting s.pc
  counts : s.counter = wrap32 (n - s.downs)
  zero : ∀ t, s.pc t = .signal → s.counter = 0
  passed : ∀ t, (s.pc t).passed = true → n ≤ s.downs

theorem sound_init (hn : 1 ≤ n) (hlt : n < 2 ^ 31) : Sound n (.initCountDown n) where
  exclusive _ := nofun
  waits := ⟨fun _ => by simp [initCountDown], .nil⟩
  counts := by simp [initCountDown, Word32.wrap32_eq (by omega : -2 ^ 31 ≤ n) hlt]
  zero _ := nofun
  passed _ := nofun

theorem le_downs (hlt : n < 2 ^ 31) (hcounts : s.counter = wrap32 (n - s.downs))
    (hopen : s.counter ≤ 0) : n ≤ s.downs := by
  by_contra hmore
  rw [Word32.wrap32_eq (by omega) (by omega)] at hcounts
  omega

theorem Sound.signals (hi : Sound n s) (hplace : place = .signal → s.counter = 0) :
    ∀ x, update s.pc t place x = .signal → s.counter = 0 :=
  (Function.forall_update_iff s.pc fun _ p => p = .signal → s.counter = 0).mpr
    ⟨hplace, fun x _ => hi.zero x⟩

theorem Sound.passes (hi : Sound n s) (hplace : place.passed = true → n ≤ s.downs) :
    ∀ x, (update s.pc t place x).passed = true → n ≤ s.downs :=
  (Function.forall_update_iff s.pc fun _ p => p.passed = true → n ≤ s.downs).mpr
    ⟨hplace, fun x _ => hi.passed x⟩

theorem Sound.move {owner : Option Nat} (hi : Sound n s)
    (hexcl : Mutex.Excludes LatchPc.critical (update s.pc t place) owner)
    (ht : s.pc t ≠ .parked) (hplace : place ≠ .parked)
    (hzero : place = .signal → s.counter = 0) (hpassed : place.passed = true → n ≤ s.downs) :
    Sound n { s.setPc t place with owner := owner } where
  exclusive := hexcl
  waits := hi.waits.move ht hplace
  counts := hi.counts
  zero := hi.signals hzero
  passed := hi.passes hpassed

theorem Sound.wakeUp (hi : Sound n s) :
    Sound n { s.setPc w .woken with waiting := s.waiting.erase w } where
  exclusive := hi.exclusive.move nofun
  waits := hi.waits.wakeUp nofun
  counts := hi.counts
  zero := hi.signals nofun
  passed := hi.passes nofun

theorem Sound.decrement (hi : Sound n s) (hpc : s.pc t = .decrement) :
    Sound n { s.setPc t .testDown with
      counter := wrap32 (s.counter - 1), downs := s.downs + 1 } where
  exclusive := hi.exclusive.move fun _ => by rw [hpc]; rfl
  waits := hi.waits.move (by rw [hpc]; nofun) nofun
  counts := by
    rw [hi.counts, Word32.wrap32_wrap32_sub]
    push_cast
    rw [Int.sub_sub]
  zero := by
    refine (Function.forall_update_iff s.pc fun _ p => p = .signal → _).mpr
      ⟨nofun, fun x hx hsig => ?_⟩
    -- nobody else is inside
    exact absurd (hi.exclusive.unique (by rw [hsig]; rfl) (by rw [hpc]; rfl)) hx
  passed := fun x hx => by
    have hbefore : n ≤ s.downs := hi.passes (by nofun) x hx
    push_cast
    omega

theorem Sound.step (hlt : n < 2 ^ 31) (hi : Sound n s) (h : Move s act s') : Sound n s' := by
  cases h with
  | callWait hout | callDown hout =>
    refine hi.move (hi.exclusive.move nofun) (fun hp => ?_) nofun nofun nofun
    rw [hp] at hout
    cases hout
  | lock hpc hfree =>
    refine hi.move (hi.exclusive.lock hfree) (fun hp => ?_) nofun nofun nofun
    rw [hp] at hpc
    simp at hpc
  | lockDown hpc hfree =>
    exact hi.move (hi.exclusive.lock hfree) (by rw [hpc]; nofun) nofun nofun nofun
  | park hpc hpos => exact {
      exclusive := hi.exclusive.unlock (by rw [hpc]; rfl) rfl
      waits := hi.waits.park (by rw [hpc]; nofun)
      counts := hi.counts
      zero := hi.signals nofun
      passed := hi.passes nofun }
  | pass hpc hopen =>
    exact hi.move (hi.exclusive.move fun _ => by rw [hpc]; rfl) (by rw [hpc]; nofun) nofun nofun
      fun _ => le_downs hlt hi.counts hopen
  | leaveWait hpc =>
    exact hi.move (hi.exclusive.unlock (by rw [hpc]; rfl) rfl) (by rw [hpc]; nofun) nofun nofun
      fun _ => hi.passed _ (by rw [hpc]; rfl)
  | decrement hpc => exact hi.decrement hpc
  | toSignal hpc hzero =>
    exact hi.move (hi.exclusive.move fun _ => by rw [hpc]; rfl) (by rw [hpc]; nofun) nofun
      (fun _ => hzero) nofun
  | noSignal hpc | unheard hpc =>
    exact hi.move (hi.exclusive.move fun _ => by rw [hpc]; rfl) (by rw [hpc]; nofun) nofun nofun
      nofun
  | leaveDown hpc =>
    exact hi.move (hi.exclusive.unlock (by rw [hpc]; rfl) rfl) (by rw [hpc]; nofun) nofun nofun
      nofun
  | @wake t w hpc =>
    have hunlocks : Sound n (s.setPc t .unlockDown) :=
      hi.move (hi.exclusive.move fun _ => by rw [hpc]; rfl) (by rw [hpc]; nofun) nofun nofun nofun
    exact hunlocks.wakeUp
  | spurious => exact hi.wakeUp

theorem sound (hn : 1 ≤ n) (hlt : n < 2 ^ 31) (h : (latch n).ReachesUnder C s) : Sound n s :=
  h.invariant (I := Sound n) (sound_init hn hlt) fun _ _ _ _ hi _ hs =>
    hi.step hlt (step_move hs)

-- ---------------------------------------------------------------------------
-- A wake-up for everyone who waits
-- ---------------------------------------------------------------------------

def Signals (counter : Int) (pc : Nat → LatchPc) : Prop :=
  ∃ d, pc d = .signal ∨ pc d = .testDown ∧ counter = 0

/-- No more than one thread waits when `counterDown` signals. -/
def OneWaits (s : Latch) : LatchAct → Prop
  | .wake _ _ => s.waiting.length ≤ 1
  | _ => True

instance (s : Latch) : (act : LatchAct) → Decidable (OneWaits s act)
  | .wake _ _ => inferInstanceAs (Decidable (_ ≤ _))
  | .counterWait _ | .counterDown _ | .run _ | .spurious _ => isTrue trivial

/-- An open latch has threads waiting only while a signal is to come. -/
def Woken (s : Latch) : Prop := s.counter ≤ 0 → s.waiting ≠ [] → Signals s.counter s.pc

theorem Signals.move {pc : Nat → LatchPc} (h : Signals c pc)
    (ht : pc t ≠ .signal ∧ pc t ≠ .testDown) : Signals c (update pc t place) := by
  obtain ⟨d, hd⟩ := h
  have hdt : d ≠ t := by
    rintro rfl
    rcases hd with hsig | ⟨htest, -⟩
    · exact ht.1 hsig
    · exact ht.2 htest
  exact ⟨d, by rwa [Function.update_of_ne hdt]⟩

theorem Signals.of_move {pc : Nat → LatchPc} (h : Signals c (update pc t place))
    (hplace : place ≠ .signal ∧ place ≠ .testDown) :
    ∃ d, d ≠ t ∧ (pc d = .signal ∨ pc d = .testDown ∧ c = 0) := by
  obtain ⟨d, hd⟩ := h
  have hdt : d ≠ t := by
    rintro rfl
    rw [Function.update_self] at hd
    rcases hd with hsig | ⟨htest, -⟩
    · exact hplace.1 hsig
    · exact hplace.2 htest
  exact ⟨d, hdt, by rwa [Function.update_of_ne hdt] at hd⟩

theorem Signals.critical {pc : Nat → LatchPc} (h : Signals c pc) :
    ∃ d, (pc d).critical = true ∧ (pc d = .signal ∨ pc d = .testDown) := by
  obtain ⟨d, hsig | ⟨htest, -⟩⟩ := h
  · exact ⟨d, by rw [hsig]; rfl, .inl hsig⟩
  · exact ⟨d, by rw [htest]; rfl, .inr htest⟩

theorem open_of_decrement (hcounts : s.counter = wrap32 x) (hneg : wrap32 (s.counter - 1) ≤ 0)
    (hne : wrap32 (s.counter - 1) ≠ 0) : s.counter ≤ 0 := by
  by_contra hpos
  have hrange := Word32.wrap32_range x
  rw [Word32.wrap32_eq (by omega) (by omega)] at hneg hne
  omega

theorem Woken.step (hi : Sound n s) (hw : Woken s) (hc : OneWaits s act) (h : Move s act s') :
    Woken s' := by
  cases h with
  | callWait hout | callDown hout =>
    refine fun hopen hne => (hw hopen hne).move ⟨fun hp => ?_, fun hp => ?_⟩ <;>
    · rw [hp] at hout
      cases hout
  | lock hpc =>
    refine fun hopen hne => (hw hopen hne).move ?_
    rcases hpc with hpc | hpc <;> rw [hpc] <;> exact ⟨nofun, nofun⟩
  | pass hpc | leaveWait hpc | lockDown hpc | leaveDown hpc =>
    exact fun hopen hne => (hw hopen hne).move (by rw [hpc]; exact ⟨nofun, nofun⟩)
  | park _ hpos => exact fun hopen => absurd hopen (Int.not_le.mpr hpos)
  | @decrement t hpc =>
    intro hneg hne
    by_cases hzero : wrap32 (s.counter - 1) = 0
    · exact ⟨t, .inr ⟨Function.update_self .., hzero⟩⟩
    · -- the latch was open before, and the signal of whoever opened it is over
      obtain ⟨d, hcrit, hd⟩ := (hw (open_of_decrement hi.counts hneg hzero) hne).critical
      obtain rfl := hi.exclusive.unique hcrit (by rw [hpc]; rfl)
      rw [hpc] at hd
      simp at hd
  | @toSignal t hpc hzero => exact fun _ _ => ⟨t, .inl (Function.update_self ..)⟩
  | noSignal hpc hnonzero =>
    intro hopen hne
    obtain ⟨d, hsig | ⟨-, hzero⟩⟩ := hw hopen hne
    · exact absurd (hi.zero d hsig) hnonzero
    · exact absurd hzero hnonzero
  | unheard _ hnone => exact fun _ hne => absurd hnone hne
  | @wake _ w _ hmem =>
    intro _ hne
    have hlength := List.length_erase_of_mem hmem
    have hone : s.waiting.length ≤ 1 := hc
    have hnone : (s.waiting.erase w).length = 0 := by omega
    exact absurd (List.length_eq_zero_iff.mp hnone) hne
  | spurious hmem =>
    intro hopen _
    have hparked := (hi.waits.parked _).mpr hmem
    exact (hw hopen (List.ne_nil_of_mem hmem)).move (by rw [hparked]; exact ⟨nofun, nofun⟩)

theorem woken (hn : 1 ≤ n) (hlt : n < 2 ^ 31) (h : (latch n).ReachesUnder OneWaits s) : Woken s :=
  h.invariant (I := Woken) (fun _ hne => absurd rfl hne) fun _ _ _ hr hw hc hs =>
    hw.step (sound hn hlt hr) hc (step_move hs)

-- ---------------------------------------------------------------------------
-- The latch
-- ---------------------------------------------------------------------------

/-- No thread has come through before `n` calls of `counterDown` have counted, and
with the counter at 0 or below no thread is parked unless a signal is to come. -/
structure Latches (n : Int) (s : Latch) : Prop where
  returns : ∀ t, s.pc t = .waited → n ≤ s.downs
  wakes : s.counter ≤ 0 → ∀ t, s.pc t = .parked → Signals s.counter s.pc

theorem Sound.latches (hi : Sound n s) (hw : Woken s) : Latches n s where
  returns t ht := hi.passed t (by rw [ht]; rfl)
  wakes hopen t ht := hw hopen (List.ne_nil_of_mem ((hi.waits.parked t).mp ht))

/-- A signal wakes one of two threads that wait, and no other signal comes. -/
theorem not_latches_of_two (hlt : n < 2 ^ 31) (hi : Sound n s) (hc : ¬ OneWaits s act)
    (h : Move s act s') : ¬ Latches n s' := by
  intro hlatches
  have hi' := hi.step hlt h
  cases h with
  | @wake t w hpc hmem =>
    have htwo : ¬ s.waiting.length ≤ 1 := hc
    have hlength := List.length_erase_of_mem hmem
    obtain ⟨x, hx⟩ := List.exists_mem_of_length_pos (by omega : 0 < (s.waiting.erase w).length)
    have hsignals := hlatches.wakes (Int.le_of_eq (hi.zero t hpc)) x ((hi'.waits.parked x).mpr hx)
    obtain ⟨d', -, hd'⟩ := Signals.of_move hsignals ⟨nofun, nofun⟩
    obtain ⟨d, hdt, hd⟩ := Signals.of_move ⟨d', hd'⟩ ⟨nofun, nofun⟩
    have hcrit : (s.pc d).critical = true := by
      rcases hd with hsig | ⟨htest, -⟩
      · rw [hsig]
        rfl
      · rw [htest]
        rfl
    exact hdt (hi.exclusive.unique hcrit (by rw [hpc]; rfl))
  | _ => exact hc trivial

/-- In a run, the latch works in every state if and only if no signal finds more
than one thread waiting. -/
theorem latches_iff (hn : 1 ≤ n) (hlt : n < 2 ^ 31) (h : (latch n).run as = some t) :
    (latch n).Throughout (Latches n) (.initCountDown n) as ↔
      (latch n).Along OneWaits (.initCountDown n) as :=
  Machine.run_throughout_iff (M := latch n)
    (fun _ hr => (sound hn hlt hr).latches (woken hn hlt hr))
    (fun _ _ _ hr hc hs => not_latches_of_two hlt (sound hn hlt hr) hc (step_move hs)) h

def park (t : Nat) : List LatchAct := [.counterWait t, .run t, .run t]

def countDown (t : Nat) : List LatchAct := [.counterDown t, .run t, .run t, .run t]

def oneThread : List LatchAct :=
  park 0 ++ countDown 1 ++ [.run 1] ++ countDown 1 ++ [.wake 1 0, .run 1, .run 0, .run 0, .run 0]

theorem oneThread_latches : (latch 2).Throughout (Latches 2) (.initCountDown 2) oneThread := by
  obtain ⟨s, hs⟩ := Option.isSome_iff_exists.mp
    (show ((latch 2).run oneThread).isSome = true by decide)
  exact (latches_iff (by decide) (by decide) hs).mpr (by decide)

def twoThreads : List LatchAct := park 0 ++ park 1 ++ countDown 2 ++ [.wake 2 0, .run 2]

theorem twoThreads_parked : ¬ ∀ n s, 1 ≤ n → n < 2 ^ 31 → (latch n).Reaches s → Latches n s := by
  intro h
  obtain ⟨s, hs, hp⟩ := Machine.exists_reaches (M := latch 1) (p := fun s =>
    s.counter ≤ 0 && s.pc 1 = .parked && s.owner.isNone) twoThreads (by decide)
  simp only [Bool.and_eq_true, decide_eq_true_eq, Option.isNone_iff_eq_none] at hp
  obtain ⟨⟨hopen, hparked⟩, hfree⟩ := hp
  have hsignals := (h 1 s (by decide) (by decide) hs).wakes hopen 1 hparked
  obtain ⟨d, hcrit, -⟩ := hsignals.critical
  have hown := (sound (by decide) (by decide) hs).exclusive d hcrit
  rw [hfree] at hown
  cases hown

end Latch

end DevAdapter
