import DevAdapter.Lib.Mutex
import DevAdapter.System.Moves

/-!
# The send mutex

`sendToPc` holds the send mutex while it sends. At the end of `freeReceThread`
`mutex_reInit` unlocks it, whether `pthread_mutex_trylock` got it or found it
in use. The mutex excludes in the runs in which it is never found in use there.
-/

namespace DevAdapter

open Function (update)
open Transition

def SendPc.critical : SendPc → Bool
  | .test _ _ | .send _ _ | .fail _ | .unlock => true
  | _ => false

theorem SendPc.critical_of_testsWaiting {pc : SendPc} (h : pc.testsWaiting = true) :
    pc.critical = false := by
  cases pc <;> first | rfl | cases h

namespace System

def ReInitFree (s : System) : Act → Prop
  | .main _ => s.main = .reInit → s.sendMutex = none
  | _ => True

instance (s : System) : (act : Act) → Decidable (ReInitFree s act)
  | .main _ => inferInstanceAs (Decidable (_ → _))
  | .server _ | .receive _ _ | .post _ | .timer | .spurious | .send _ _ | .callback _ _ _
  | .disconnect => isTrue trivial

variable {s s' : System}

-- ---------------------------------------------------------------------------
-- The main thread as a sender
-- ---------------------------------------------------------------------------

def MainIdle (s : System) : Prop := s.main ≠ .sending → s.snd .main = .idle

theorem MainIdle.step (hi : MainIdle s) (h : (adapter K).step s act = some s') : MainIdle s' := by
  obtain ⟨-, hmove⟩ := step_move h
  cases hmove with
  | main h =>
    cases h with
    | rfMf | inquirySend => exact fun h => absurd rfl h
    | sent _ hidle => exact fun _ => hidle
    | crash => exact hi
    | _ => exact fun _ => hi (by rw [‹s.main = _›]; exact nofun)
  | @send x _ _ h =>
    intro hm
    have hx : x ≠ .main := by
      rintro rfl
      have hidle := hi (by cases h <;> exact hm)
      cases h <;> simp_all [SendPc.testsWaiting]
    have hidle := hi (by cases h <;> exact hm)
    cases h <;> simpa [Ne.symm hx] using hidle
  | broker | dma => simpa [MainIdle] using hi
  | post h => cases h <;> exact hi
  | server h => cases h <;> exact hi
  | receive h => cases h <;> exact hi
  | timer h => cases h <;> exact hi
  | spurious | disconnect => exact hi

theorem mainIdle (h : (adapter K).ReachesUnder C s) : MainIdle s :=
  h.invariant (I := MainIdle) (fun _ => rfl) fun _ _ _ _ hi _ hs => hi.step hs

-- ---------------------------------------------------------------------------
-- Whoever is inside has locked the mutex
-- ---------------------------------------------------------------------------

structure ExclusiveAt (main : MainPc) (sendMutex : Option Sender) (snd : Sender → SendPc) :
    Prop where
  senders : Mutex.Excludes SendPc.critical snd sendMutex
  reInit : main = .reInitUnlock → sendMutex = some .main

abbrev Exclusive (s : System) : Prop := ExclusiveAt s.main s.sendMutex s.snd

theorem exclusive_init : Exclusive .init where
  senders _ := nofun
  reInit := nofun

theorem Exclusive.send (hi : Exclusive s) (hm : MainIdle s) (h : SendMove s x ret s') :
    Exclusive s' := by
  cases h with
  | lock _ hfree =>
    refine ⟨hi.senders.lock hfree, fun hre => ?_⟩
    have hheld := hi.reInit hre
    rw [hfree] at hheld
    cases hheld
  | unlock hpc =>
    have hx : (s.snd x).critical = true := by rw [hpc]; rfl
    refine ⟨hi.senders.unlock hx rfl, fun hre => ?_⟩
    -- the main thread is not in `sendToPc` while it is in `mutex_reInit`
    obtain rfl : x = .main := Option.some.inj ((hi.senders x hx).symm.trans (hi.reInit hre))
    rw [hm (by rw [show s.main = _ from hre]; exact nofun)] at hpc
    cases hpc
  | crash => exact hi
  | full hpc | short hpc | closed hpc | fail hpc | enabled hpc | disabled hpc =>
    exact ⟨hi.senders.move fun _ => by rw [hpc]; rfl, hi.reInit⟩
  | _ => exact ⟨hi.senders.move nofun, hi.reInit⟩

theorem Exclusive.main (hi : Exclusive s) (hm : MainIdle s) (hc : ReInitFree s (.main a))
    (h : MainMove s s') : Exclusive s' := by
  cases h with
  | rfMf | inquirySend => exact ⟨hi.senders.move nofun, nofun⟩
  | tryLock _ hfree => exact ⟨hi.senders.of_free hfree _, fun _ => rfl⟩
  | busy hpc hheld => exact absurd (hc hpc) hheld
  | reInit hpc =>
    refine ⟨fun x hx => ?_, nofun⟩
    obtain rfl : x = .main := Option.some.inj ((hi.senders x hx).symm.trans (hi.reInit hpc))
    rw [hm (by rw [hpc]; exact nofun)] at hx
    cases hx
  | crash => exact hi
  | _ => exact ⟨hi.senders, nofun⟩

theorem Exclusive.step (hi : Exclusive s) (hm : MainIdle s) (hc : ReInitFree s act)
    (h : (adapter K).step s act = some s') : Exclusive s' := by
  obtain ⟨-, hmove⟩ := step_move h
  cases hmove with
  | send h => exact hi.send hm h
  | main h => exact hi.main hm hc h
  | broker | dma => exact ⟨hi.senders.move nofun, hi.reInit⟩
  | post h => cases h <;> exact hi
  | server h => cases h <;> exact hi
  | receive h => cases h <;> exact hi
  | timer h => cases h <;> exact hi
  | spurious | disconnect => exact hi

theorem exclusive (h : (adapter K).ReachesUnder ReInitFree s) : Exclusive s :=
  h.invariant (I := Exclusive) exclusive_init fun _ _ _ hr hi hc hs => hi.step (mainIdle hr) hc hs

-- ---------------------------------------------------------------------------
-- Whoever has locked the mutex is inside
-- ---------------------------------------------------------------------------

/-- The owner is a sender inside, or the main thread in `mutex_reInit`. -/
def OwnerInsideAt (main : MainPc) (sendMutex : Option Sender) (snd : Sender → SendPc) : Prop :=
  ∀ x, sendMutex = some x → (snd x).critical = true ∨ x = .main ∧ main = .reInitUnlock

abbrev OwnerInside (s : System) : Prop := OwnerInsideAt s.main s.sendMutex s.snd

theorem OwnerInsideAt.setSnd {senders : Sender → SendPc} (hi : OwnerInsideAt m owner senders)
    {x : Sender} {pc : SendPc} (h : (senders x).critical = true → pc.critical = true) :
    OwnerInsideAt m owner (update senders x pc) := by
  intro y hy
  refine (hi y hy).imp_left fun hin => ?_
  by_cases hyx : y = x
  · subst hyx
    rw [Function.update_self]
    exact h hin
  · rwa [Function.update_of_ne hyx]

theorem OwnerInside.send (hi : OwnerInside s) (h : SendMove s x ret s') : OwnerInside s' := by
  cases h with
  | lock =>
    intro y hy
    obtain rfl : x = y := Option.some.inj hy
    exact .inl (by simp [SendPc.critical])
  | unlock => exact fun _ => nofun
  | crash => exact hi
  | refuse hpc hwaits =>
    refine OwnerInsideAt.setSnd hi fun hin => ?_
    rw [hpc, SendPc.critical_of_testsWaiting hwaits] at hin
    cases hin
  | exception hpc | enter hpc | check hpc =>
    exact OwnerInsideAt.setSnd hi fun hin => by rw [hpc] at hin; cases hin
  | _ => exact OwnerInsideAt.setSnd hi fun _ => rfl

theorem OwnerInside.main (hi : OwnerInside s) (hm : MainIdle s) (h : MainMove s s') :
    OwnerInside s' := by
  -- where the main thread is not in `mutex_reInit`, the owner is a sender
  have hsender : s.main ≠ .reInitUnlock → ∀ x, s.sendMutex = some x → (s.snd x).critical = true :=
    fun hne x hx => (hi x hx).resolve_right fun h => hne h.2
  cases h with
  | rfMf _ hpc | inquirySend _ hpc =>
    have hidle := hm (by rw [hpc]; exact nofun)
    refine OwnerInsideAt.setSnd (fun x hx => .inl ?_) fun hin => ?_
    · exact hsender (by rw [hpc]; exact nofun) x hx
    · rw [hidle] at hin
      cases hin
  | tryLock => exact fun x hx => .inr ⟨(Option.some.inj hx).symm, rfl⟩
  | reInit => exact fun _ => nofun
  | crash => exact hi
  | _ => exact fun x hx => .inl (hsender (by rw [‹s.main = _›]; exact nofun) x hx)

theorem OwnerInside.step (hi : OwnerInside s) (hm : MainIdle s)
    (h : (adapter K).step s act = some s') : OwnerInside s' := by
  obtain ⟨-, hmove⟩ := step_move h
  cases hmove with
  | send h => exact hi.send h
  | main h => exact hi.main hm h
  | broker _ hidle | dma _ hidle =>
    exact OwnerInsideAt.setSnd hi fun hin => by rw [hidle] at hin; cases hin
  | post h => cases h <;> exact hi
  | server h => cases h <;> exact hi
  | receive h => cases h <;> exact hi
  | timer h => cases h <;> exact hi
  | spurious | disconnect => exact hi

theorem ownerInside (h : (adapter K).ReachesUnder C s) : OwnerInside s :=
  h.invariant (I := OwnerInside) (fun _ => nofun) fun _ _ _ hr hi _ hs => hi.step (mainIdle hr) hs

-- ---------------------------------------------------------------------------
-- One sender at a time
-- ---------------------------------------------------------------------------

/-- At most one thread is between the lock and the unlock in `sendToPc`, and
whoever is about to unlock the mutex is the thread that locked it. -/
structure OneSender (s : System) : Prop where
  unique : ∀ x y, (s.snd x).critical = true → (s.snd y).critical = true → x = y
  unlocks : ∀ x, s.snd x = .unlock → s.sendMutex = some x
  reInit : s.main = .reInitUnlock → s.sendMutex = some .main

theorem Exclusive.oneSender (hi : Exclusive s) : OneSender s := by
  refine ⟨fun x y => hi.senders.unique, fun x hx => ?_, hi.reInit⟩
  exact hi.senders x (by rw [hx]; rfl)

/-- Where `mutex_reInit` finds the mutex in use, it goes on to unlock another
thread's mutex. -/
theorem not_oneSender_of_busy (hr : (adapter K).ReachesUnder C s) (hc : ¬ ReInitFree s act)
    (h : (adapter K).step s act = some s') : ¬ OneSender s' := by
  intro hone
  obtain ⟨-, hmove⟩ := step_move h
  cases hmove with
  | main h =>
    obtain ⟨hpc, hheld⟩ := Classical.not_imp.mp hc
    cases h with
    | busy =>
      have hin := (ownerInside hr .main (hone.reInit rfl)).resolve_right fun h => by
        rw [hpc] at h
        cases h.2
      rw [mainIdle hr (by rw [hpc]; exact nofun)] at hin
      cases hin
    | tryLock _ hfree => exact hheld hfree
    | crash hderefs => rw [hpc] at hderefs; cases hderefs
    | _ =>
      have hplace := hpc.symm.trans ‹s.main = _›
      cases hplace
  | _ => exact hc trivial

/-- In a run, the mutex excludes in every state if and only if `mutex_reInit`
always finds it free. -/
theorem one_sender_iff (h : (adapter K).run as = some t) :
    (adapter K).Throughout OneSender .init as ↔ (adapter K).Along ReInitFree .init as :=
  Machine.run_throughout_iff (fun _ hr => (exclusive hr).oneSender)
    (fun _ _ _ hr hc hs => not_oneSender_of_busy hr hc hs) h

def sendToSecond : List Act :=
  boot ++ acceptClient ++ mains 9 ++ tick ++ mains 6 ++ exitReceive 0 ++ mains 5 ++
    acceptClient ++ [.callback 0 false [1, 2]] ++ sends (.callback 0) (some 2) 4

theorem sendToSecond_oneSender : (adapter 8).Throughout OneSender .init sendToSecond := by
  obtain ⟨s, hs⟩ := Option.isSome_iff_exists.mp
    (show ((adapter 8).run sendToSecond).isSome = true by decide +kernel)
  exact (one_sender_iff hs).mpr (by decide +kernel)

def stopDuringSend : List Act :=
  boot ++ acceptClient ++ mains 9 ++ [.callback 0 false [1]] ++ sends (.callback 0) none 4 ++
    [.callback 1 false [2]] ++ sends (.callback 1) none 2 ++ tick ++ mains 6 ++ exitReceive 0 ++
    mains 5 ++ sends (.callback 1) none 1

theorem stopDuringSend_two : ¬ ∀ K s, 0 < K → (adapter K).Reaches s → OneSender s := by
  intro h
  obtain ⟨s, hs, hp⟩ := Machine.exists_reaches (M := adapter 8) (p := fun s =>
    (s.snd (.callback 0)).critical && (s.snd (.callback 1)).critical) stopDuringSend
    (by decide +kernel)
  simp only [Bool.and_eq_true] at hp
  cases (h 8 s (by decide) hs).unique _ _ hp.1 hp.2

end System

end DevAdapter
