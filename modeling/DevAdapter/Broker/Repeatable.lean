import DevAdapter.Broker.Lifecycle

/-!
# Repeatable calls of `init_broker`

Both `close_broker` and an `init_broker` that fails destroy `big_mutex`, which
is initialised statically and never again. A run in which neither happens uses
no destroyed object; after either no `init_broker` can succeed any more.
-/

namespace DevAdapter.Broker

open Function (update)
open Transition

def CallerPc.closes : CallerPc → Bool
  | .closeInits _ | .closeLock | .closeTestMid | .closeWaiting | .closeUnlock
  | .closeDestroy _ => true
  | _ => false

section

variable {pc : CallerPc}

theorem closes_of_closing (h : pc.closing = true) : pc.closes = true := by
  cases pc <;> first | rfl | cases h

theorem closes_of_inside (h : pc.inside = true) : pc.closes = false := by
  cases pc <;> first | rfl | cases h

theorem inside_of_working (h : pc.working = true) : pc.inside = true := by
  cases pc <;> first | exact h | cases h

theorem inside_of_closing (h : pc.closing = true) : pc.inside = false := by
  cases pc <;> first | rfl | cases h

theorem fails_of_working (h : pc.working = true) : pc.fails = false := by
  cases pc <;> first | rfl | cases h

theorem fails_of_closing (h : pc.closing = true) : pc.fails = false := by
  cases pc <;> first | rfl | cases h

end

namespace Lifecycle

/-- No call of `init_broker` fails, and `close_broker` is not called. -/
def Smooth (s : Lifecycle) : LifecycleAct → Prop
  | .closeBroker => False
  | .caller a => SmoothAt s a s.caller
  | _ => True

instance decidableSmoothAt (s : Lifecycle) (a : LibAnswer) :
    (pc : CallerPc) → Decidable (SmoothAt s a pc)
  | .testStat => inferInstanceAs (Decidable (_ ≠ _))
  | .libInit | .new => inferInstanceAs (Decidable (_ ∨ _))
  | .inits (_ :: _) | .create | .readStat => inferInstanceAs (Decidable (_ = _))
  | .exit2 _ => inferInstanceAs (Decidable (_ → _))
  | .inits [] | .idle | .lockBig | .lockCont | .testMid | .waiting | .unlockCont _
  | .testConnect _ | .subscribe | .exit0 _ | .destroy _ _ | .closeInits _ | .closeLock
  | .closeTestMid | .closeWaiting | .closeUnlock | .closeDestroy _ => isTrue trivial

instance (s : Lifecycle) : (act : LifecycleAct) → Decidable (Smooth s act)
  | .closeBroker => isFalse id
  | .caller a => decidableSmoothAt s a s.caller
  | .initBroker | .mqtt _ _ => isTrue trivial

def successes (s : Lifecycle) : Nat := s.returned.countP fun x => x.ret = 0

/-- Some way to go on leads to one more `init_broker` that returns 0. -/
def CanSucceed (s : Lifecycle) : Prop :=
  ∃ as t, lifecycle.runFrom s as = some t ∧ s.successes < t.successes

structure Atomic (s : Lifecycle) : Prop where
  misuse : s.misuse = false
  kept : ∀ x ∈ s.returned, x.ret ≠ 0 → x.after = x.before
  repeatable : s.caller = .idle → (∃ x ∈ s.returned, x.ret ≠ 0) ∨ 0 < s.closed → CanSucceed s

variable {s s' : Lifecycle}

-- ---------------------------------------------------------------------------
-- Runs in which nothing is destroyed
-- ---------------------------------------------------------------------------

structure Intact (s : Lifecycle) : Prop where
  misuse : s.misuse = false
  sync : ∀ o, s.data.sync o ≠ .destroyed
  fails : s.caller.fails = false
  closes : s.caller.closes = false
  returned : ∀ x ∈ s.returned, x.ret = 0
  closed : s.closed = 0

theorem intact_init : Intact .init where
  misuse := rfl
  sync _ := nofun
  fails := rfl
  closes := rfl
  returned _ := nofun
  closed := rfl

theorem Intact.uses (hi : Intact s) (hfails : s'.caller.fails = false)
    (hcloses : s'.caller.closes = false) (h : Uses s s') : Intact s' where
  misuse := h.misuse.trans hi.misuse
  sync o ho := hi.sync o (h.sync o ho)
  fails := hfails
  closes := hcloses
  returned x hx := hi.returned x (h.returned ▸ hx)
  closed := h.closed.trans hi.closed

theorem sync_setSync {o : SyncObject} {state : SyncState} (h : ∀ p, s.data.sync p ≠ .destroyed)
    (hstate : state ≠ .destroyed) : ∀ p, (s.setSync o state).data.sync p ≠ .destroyed := by
  simp only [setSync]
  rw [Function.forall_update_iff s.data.sync fun _ state => state ≠ .destroyed]
  exact ⟨hstate, fun p _ => h p⟩

theorem mem_returns {x : InitReturn} : x ∈ (s.returns ret).returned ↔
    x ∈ s.returned ∨ x = ⟨ret, s.before, s.data⟩ := by
  rw [returns, List.mem_append, List.mem_singleton]

theorem Intact.caller (hi : Intact s) (hc : SmoothAt s a s.caller) (h : CallerMove s a s') :
    Intact s' := by
  have hfails := hi.fails
  have hcloses := hi.closes
  cases h with
  | misused hdestroyed => exact absurd hdestroyed (hi.sync _)
  | lockBig => exact { hi with sync := sync_setSync hi.sync nofun, fails := rfl, closes := rfl }
  | inside hold hnew hiff huses =>
    exact hi.uses (hiff.mpr hc) (closes_of_inside hnew) huses
  | succeed =>
    refine { hi with
      sync := sync_setSync hi.sync nofun, fails := rfl, closes := rfl, returned := ?_ }
    intro x hx
    rcases mem_returns.mp hx with hx | rfl
    · exact hi.returned x hx
    · rfl
  | fail hpc hret => simp [hpc, CallerPc.fails, hret] at hfails
  | destroy hpc | failed hpc => rw [hpc] at hfails; cases hfails
  | closing hold => rw [closes_of_closing hold] at hcloses; cases hcloses
  | closeDestroy hpc | closed hpc => rw [hpc] at hcloses; cases hcloses

theorem Intact.step (hi : Intact s) (hc : Smooth s act) (h : lifecycle.step s act = some s') :
    Intact s' := by
  obtain ⟨-, hmove⟩ := step_move h
  cases hmove with
  | initBroker => exact { hi with fails := rfl, closes := rfl }
  | closeBroker => cases hc
  | caller h => exact hi.caller hc h
  | mqtt hcaller huses => exact hi.uses (hcaller ▸ hi.fails) (hcaller ▸ hi.closes) huses
  | misused hdestroyed => exact absurd hdestroyed (hi.sync _)

theorem intact (h : lifecycle.ReachesUnder Smooth s) : Intact s :=
  h.invariant intact_init fun _ _ _ _ hi hc hs => hi.step hc hs

theorem Intact.atomic (hi : Intact s) : Atomic s where
  misuse := hi.misuse
  kept x hx hret := absurd (hi.returned x hx) hret
  repeatable _ h := by
    rcases h with ⟨x, hx, hret⟩ | hclosed
    · exact absurd (hi.returned x hx) hret
    · rw [hi.closed] at hclosed
      cases hclosed

-- ---------------------------------------------------------------------------
-- What becomes of `big_mutex`
-- ---------------------------------------------------------------------------

/-- `big_mutex` now, and when the last call of `init_broker` began. -/
structure BigAt (caller : CallerPc) (big before : SyncState) : Prop where
  inside : caller.inside = true → big = .held .caller ∧ before = .free
  outside : caller.inside = false → ∀ x, big ≠ .held x
  called : caller = .lockBig → before = big
  destroying : ∀ ret left, caller = .destroy ret left → ret ≠ 0 ∧ before = .free ∧
    (left = destroyOrder ∨ .bigMutex ∉ left ∧ big = .destroyed)
  closing : ∀ left, caller = .closeDestroy left →
    left = destroyOrder ∨ .bigMutex ∉ left ∧ big = .destroyed

section

variable {big before : SyncState} {ret : Int}

theorem bigAt_idle (hbig : ∀ x, big ≠ .held x) : BigAt .idle big before :=
  ⟨nofun, fun _ => hbig, nofun, fun _ _ => nofun, fun _ => nofun⟩

theorem bigAt_inside {pc : CallerPc} (hpc : pc.inside = true) (hbig : big = .held .caller)
    (hbefore : before = .free) : BigAt pc big before where
  inside _ := ⟨hbig, hbefore⟩
  outside h := by cases h.symm.trans hpc
  called h := by
    rw [h] at hpc
    cases hpc
  destroying _ _ h := by
    rw [h] at hpc
    cases hpc
  closing _ h := by
    rw [h] at hpc
    cases hpc

theorem bigAt_destroy {left : List SyncObject} (hbig : ∀ x, big ≠ .held x) (hret : ret ≠ 0)
    (hbefore : before = .free) (hleft : left = destroyOrder ∨ .bigMutex ∉ left ∧ big = .destroyed) :
    BigAt (.destroy ret left) big before where
  inside := nofun
  outside _ := hbig
  called := nofun
  destroying := by
    rintro _ _ ⟨⟩
    exact ⟨hret, hbefore, hleft⟩
  closing _ := nofun

theorem bigAt_closeDestroy {left : List SyncObject} (hbig : ∀ x, big ≠ .held x)
    (hleft : left = destroyOrder ∨ .bigMutex ∉ left ∧ big = .destroyed) :
    BigAt (.closeDestroy left) big before where
  inside := nofun
  outside _ := hbig
  called := nofun
  destroying _ _ := nofun
  closing := by
    rintro _ ⟨⟩
    exact hleft

theorem bigAt_closing {pc : CallerPc} (hpc : pc.closing = true) (hbig : ∀ x, big ≠ .held x) :
    BigAt pc big before where
  inside h := by cases (closes_of_inside h).symm.trans (closes_of_closing hpc)
  outside _ := hbig
  called h := by
    rw [h] at hpc
    cases hpc
  destroying _ _ h := by
    rw [h] at hpc
    cases hpc
  closing _ h := by
    rw [h] at hpc
    cases hpc

end

/-- An `init_broker` has failed, or a `close_broker` has returned. -/
def Over (s : Lifecycle) : Prop := (∃ x ∈ s.returned, x.ret ≠ 0) ∨ 0 < s.closed

structure Big (s : Lifecycle) : Prop where
  big : BigAt s.caller (s.data.sync .bigMutex) (s.before.sync .bigMutex)
  failed : ∀ x ∈ s.returned, x.ret ≠ 0 →
    x.before.sync .bigMutex = .free ∧ x.after.sync .bigMutex = .destroyed
  gone : s.Over → s.data.sync .bigMutex = .destroyed

theorem big_init : Big .init where
  big := ⟨nofun, fun _ _ => nofun, nofun, fun _ _ => nofun, fun _ => nofun⟩
  failed _ := nofun
  gone h := by
    rcases h with ⟨x, hx, -⟩ | hclosed
    · cases hx
    · cases hclosed

theorem setSync_self (s : Lifecycle) (o : SyncObject) (state : SyncState) :
    (s.setSync o state).data.sync o = state := by
  simp

theorem destroy_self {o : SyncObject} (h : ∀ x, s.data.sync o ≠ .held x) :
    (s.destroy o).data.sync o = .destroyed := by
  unfold Lifecycle.destroy
  split
  · exact absurd ‹_› (h _)
  · exact Function.update_self ..

theorem destroy_ne {o p : SyncObject} (h : p ≠ o) :
    (s.destroy o).data.sync p = s.data.sync p := by
  unfold Lifecycle.destroy
  split
  · rfl
  · exact Function.update_of_ne h ..

@[simp] theorem destroy_returned (s : Lifecycle) (o : SyncObject) :
    (s.destroy o).returned = s.returned := by
  unfold Lifecycle.destroy
  split <;> rfl

@[simp] theorem destroy_closed (s : Lifecycle) (o : SyncObject) :
    (s.destroy o).closed = s.closed := by
  unfold Lifecycle.destroy
  split <;> rfl

@[simp] theorem destroy_before (s : Lifecycle) (o : SyncObject) :
    (s.destroy o).before = s.before := by
  unfold Lifecycle.destroy
  split <;> rfl

theorem destroy_big {o : SyncObject} {left : List SyncObject}
    (hfree : ∀ x, s.data.sync .bigMutex ≠ .held x)
    (h : o :: left = destroyOrder ∨ .bigMutex ∉ o :: left ∧ s.data.sync .bigMutex = .destroyed) :
    .bigMutex ∉ left ∧ (s.destroy o).data.sync .bigMutex = .destroyed := by
  rcases h with h | ⟨hleft, hdestroyed⟩
  · obtain ⟨rfl, rfl⟩ := List.cons.inj h
    exact ⟨by decide, destroy_self hfree⟩
  · obtain ⟨ho, hleft⟩ := not_or.mp (mt List.mem_cons.mpr hleft)
    exact ⟨hleft, (destroy_ne ho).trans hdestroyed⟩

theorem Big.uses (hi : Big s) (h : Uses s s')
    (hbig : BigAt s'.caller (s.data.sync .bigMutex) (s.before.sync .bigMutex)) : Big s' where
  big := by
    rw [h.big, h.before]
    exact hbig
  failed x hx := hi.failed x (h.returned ▸ hx)
  gone hover := by
    unfold Over at hover
    rw [h.returned, h.closed] at hover
    exact h.big.trans (hi.gone hover)

theorem Big.not_over (hi : Big s) (h : s.data.sync .bigMutex ≠ .destroyed) : ¬ s.Over :=
  fun hover => h (hi.gone hover)

theorem not_held {x : BrokerThread} {big : SyncState} (h : big = .free ∨ big = .destroyed) : big ≠ .held x := by
  rintro rfl
  rcases h with h | h <;> cases h

theorem Big.caller (hi : Big s) (h : CallerMove s a s') : Big s' := by
  have hb := hi.big
  cases h with
  | misused => exact ⟨hi.big, hi.failed, hi.gone⟩
  | lockBig hpc hfree =>
    have hover := hi.not_over (by rw [hfree]; nofun)
    exact ⟨bigAt_inside rfl (setSync_self s _ _) ((hb.called hpc).trans hfree), hi.failed,
      fun h => absurd h hover⟩
  | inside hold hnew _ huses =>
    obtain ⟨hheld, hbefore⟩ := hb.inside (inside_of_working hold)
    exact hi.uses huses (bigAt_inside hnew hheld hbefore)
  | succeed hpc =>
    obtain ⟨hheld, -⟩ := hb.inside (by rw [hpc]; rfl)
    have hover := hi.not_over (by rw [hheld]; nofun)
    have hbig : (s.setSync .bigMutex .free).data.sync .bigMutex = .free := setSync_self s _ _
    refine ⟨bigAt_idle fun _ => not_held (.inl hbig), ?_, ?_⟩
    · intro x hx hret
      rcases mem_returns.mp hx with hx | rfl
      · exact hi.failed x hx hret
      · exact absurd rfl hret
    · rintro (⟨x, hx, hret⟩ | hclosed)
      · rcases mem_returns.mp hx with hx | rfl
        · exact absurd (.inl ⟨x, hx, hret⟩) hover
        · exact absurd rfl hret
      · exact absurd (.inr hclosed) hover
  | fail hpc hret =>
    obtain ⟨hheld, hbefore⟩ := hb.inside (by rw [hpc]; rfl)
    have hover := hi.not_over (by rw [hheld]; nofun)
    have hbig : (s.setSync .bigMutex .free).data.sync .bigMutex = .free := setSync_self s _ _
    exact ⟨bigAt_destroy (fun _ => not_held (.inl hbig)) hret hbefore (.inl rfl), hi.failed,
      fun h => absurd h hover⟩
  | @destroy ret o left hpc =>
    obtain ⟨hret, hbefore, hleft⟩ := hb.destroying _ _ hpc
    obtain ⟨hleft', hbig⟩ := destroy_big (hb.outside (by rw [hpc]; rfl)) hleft
    refine ⟨bigAt_destroy (fun _ => not_held (.inr hbig)) hret ?_ (.inr ⟨hleft', hbig⟩), ?_,
      fun _ => hbig⟩
    · simpa using hbefore
    · simpa using hi.failed
  | failed hpc =>
    obtain ⟨hret, hbefore, hleft⟩ := hb.destroying _ _ hpc
    have hbig := (hleft.resolve_left nofun).2
    refine ⟨bigAt_idle fun _ => not_held (.inr hbig), ?_, fun _ => hbig⟩
    intro x hx hne
    rcases mem_returns.mp hx with hx | rfl
    · exact hi.failed x hx hne
    · exact ⟨hbefore, hbig⟩
  | closing hold hnew huses =>
    have hout := hb.outside (inside_of_closing hold)
    refine hi.uses huses ?_
    rcases hnew with hnew | hnew
    · exact bigAt_closing hnew hout
    · rw [hnew]
      exact bigAt_closeDestroy hout (.inl rfl)
  | closeDestroy hpc =>
    obtain ⟨hleft, hbig⟩ := destroy_big (hb.outside (by rw [hpc]; rfl)) (hb.closing _ hpc)
    refine ⟨bigAt_closeDestroy (fun _ => not_held (.inr hbig)) (.inr ⟨hleft, hbig⟩), ?_,
      fun _ => hbig⟩
    simpa using hi.failed
  | closed hpc =>
    have hbig := ((hb.closing _ hpc).resolve_left nofun).2
    exact ⟨bigAt_idle fun _ => not_held (.inr hbig), hi.failed, fun _ => hbig⟩

theorem Big.step (hi : Big s) (h : lifecycle.step s act = some s') : Big s' := by
  obtain ⟨-, hmove⟩ := step_move h
  have hb := hi.big
  cases hmove with
  | initBroker hpc =>
    exact ⟨⟨nofun, fun _ => hb.outside (by rw [hpc]; rfl), fun _ => rfl, fun _ _ => nofun,
      fun _ => nofun⟩, hi.failed, hi.gone⟩
  | closeBroker hpc =>
    exact ⟨bigAt_closing rfl (hb.outside (by rw [hpc]; rfl)), hi.failed, hi.gone⟩
  | caller h => exact hi.caller h
  | mqtt hcaller huses => exact hi.uses huses (hcaller ▸ hb)
  | misused => exact ⟨hi.big, hi.failed, hi.gone⟩

theorem big (h : lifecycle.Reaches s) : Big s :=
  h.invariant big_init fun _ _ _ _ hi _ hs => hi.step hs

theorem failed_destroys (h : lifecycle.Reaches s) {x : InitReturn} (hx : x ∈ s.returned)
    (hret : x.ret ≠ 0) : x.after ≠ x.before := by
  obtain ⟨hbefore, hafter⟩ := (big h).failed x hx hret
  intro hkept
  rw [hkept, hbefore] at hafter
  cases hafter

-- ---------------------------------------------------------------------------
-- No way back
-- ---------------------------------------------------------------------------

/-- `big_mutex` is destroyed, and the caller not behind its lock. -/
structure Stuck (n : Nat) (s : Lifecycle) : Prop where
  big : s.data.sync .bigMutex = .destroyed
  caller : s.caller = .idle ∨ s.caller = .lockBig ∨ s.caller.closes = true
  successes : s.successes = n

theorem destroy_destroyed {o p : SyncObject} (h : s.data.sync p = .destroyed) :
    (s.destroy o).data.sync p = .destroyed := by
  by_cases hpo : p = o
  · subst hpo
    exact destroy_self fun x hx => by cases h.symm.trans hx
  · exact (destroy_ne hpo).trans h

theorem successes_congr (h : s'.returned = s.returned) : s'.successes = s.successes := by
  simp only [successes, h]

theorem Stuck.uses (hi : Stuck n s) (h : Uses s s')
    (hcaller : s'.caller = .idle ∨ s'.caller = .lockBig ∨ s'.caller.closes = true) :
    Stuck n s' where
  big := h.big.trans hi.big
  caller := hcaller
  successes := (successes_congr h.returned).trans hi.successes

theorem Stuck.step (hi : Stuck n s) (h : lifecycle.step s act = some s') : Stuck n s' := by
  obtain ⟨-, hmove⟩ := step_move h
  have hcaller := hi.caller
  cases hmove with
  | initBroker => exact ⟨hi.big, .inr (.inl rfl), hi.successes⟩
  | closeBroker => exact ⟨hi.big, .inr (.inr rfl), hi.successes⟩
  | mqtt hsame huses => exact hi.uses huses (hsame ▸ hcaller)
  | misused => exact ⟨hi.big, hi.caller, hi.successes⟩
  | caller h =>
    cases h with
    | misused => exact ⟨hi.big, hi.caller, hi.successes⟩
    | lockBig _ hfree => cases hfree.symm.trans hi.big
    | inside hold =>
      have hno := closes_of_inside (inside_of_working hold)
      rcases hcaller with hpc | hpc | hpc
      · rw [hpc] at hold
        cases hold
      · rw [hpc] at hold
        cases hold
      · rw [hno] at hpc
        cases hpc
    | succeed hpc | fail hpc | destroy hpc | failed hpc =>
      rw [hpc] at hcaller
      simp [CallerPc.closes] at hcaller
    | closing _ hnew huses =>
      refine hi.uses huses (.inr (.inr ?_))
      rcases hnew with hnew | hnew
      · exact closes_of_closing hnew
      · rw [hnew]
        rfl
    | closeDestroy =>
      refine ⟨destroy_destroyed hi.big, .inr (.inr rfl), ?_⟩
      exact (successes_congr (destroy_returned s _)).trans hi.successes
    | closed => exact ⟨hi.big, .inl rfl, hi.successes⟩

theorem not_canSucceed (hidle : s.caller = .idle) (hbig : s.data.sync .bigMutex = .destroyed) :
    ¬ s.CanSucceed := by
  rintro ⟨as, t, hrun, hmore⟩
  have ht : Stuck s.successes t :=
    Machine.runFrom_keeps (fun _ _ _ hi h => hi.step h) ⟨hbig, .inl hidle, rfl⟩ hrun
  exact absurd ht.successes (Nat.ne_of_gt hmore)

-- ---------------------------------------------------------------------------
-- Runs in which something is destroyed
-- ---------------------------------------------------------------------------

/-- A call has failed or closed the broker, or is about to. -/
def Doomed (s : Lifecycle) : Prop :=
  s.misuse = true ∨ s.Over ∨ s.caller.fails = true ∨ s.caller.closes = true

theorem Over.uses (hover : s.Over) (h : Uses s s') : s'.Over := by
  unfold Over at hover ⊢
  rwa [h.returned, h.closed]

theorem Over.caller (hover : s.Over) (h : CallerMove s a s') : s'.Over := by
  cases h with
  | misused | lockBig | fail => exact hover
  | inside _ _ _ huses | closing _ _ huses => exact hover.uses huses
  | succeed | failed =>
    exact hover.imp_left fun ⟨x, hx, hret⟩ => ⟨x, mem_returns.mpr (.inl hx), hret⟩
  | destroy | closeDestroy => simpa [Over] using hover
  | closed => exact .inr (Nat.succ_pos _)

theorem Doomed.caller (hi : Doomed s) (hrun : s.misuse = false) (hb : Big s)
    (h : CallerMove s a s') : Doomed s' := by
  rcases hi with hmisuse | hover | hfails | hcloses
  · cases hrun.symm.trans hmisuse
  · exact .inr (.inl (hover.caller h))
  · cases h with
    | misused => exact .inl rfl
    | lockBig hpc | closeDestroy hpc | closed hpc | succeed hpc => rw [hpc] at hfails; cases hfails
    | inside hold => cases (fails_of_working hold).symm.trans hfails
    | closing hold => cases (fails_of_closing hold).symm.trans hfails
    | fail | destroy => exact .inr (.inr (.inl rfl))
    | failed hpc =>
      have hret := (hb.big.destroying _ _ hpc).1
      exact .inr (.inl (.inl ⟨_, mem_returns.mpr (.inr rfl), hret⟩))
  · cases h with
    | misused => exact .inl rfl
    | lockBig hpc | succeed hpc | fail hpc | destroy hpc | failed hpc =>
      rw [hpc] at hcloses
      cases hcloses
    | inside hold =>
      rw [closes_of_inside (inside_of_working hold)] at hcloses
      cases hcloses
    | closing _ hnew =>
      refine .inr (.inr (.inr ?_))
      rcases hnew with hnew | hnew
      · exact closes_of_closing hnew
      · rw [hnew]
        rfl
    | closeDestroy => exact .inr (.inr (.inr rfl))
    | closed => exact .inr (.inl (.inr (Nat.succ_pos _)))

theorem Doomed.step (hi : Doomed s) (hb : Big s) (h : lifecycle.step s act = some s') :
    Doomed s' := by
  obtain ⟨hrun, hmove⟩ := step_move h
  cases hmove with
  | closeBroker => exact .inr (.inr (.inr rfl))
  | caller h => exact hi.caller hrun hb h
  | misused => exact .inl rfl
  | initBroker hpc =>
    rcases hi with hmisuse | hover | hfails | hcloses
    · cases hrun.symm.trans hmisuse
    · exact .inr (.inl hover)
    · rw [hpc] at hfails
      cases hfails
    · rw [hpc] at hcloses
      cases hcloses
  | mqtt hcaller huses =>
    rcases hi with hmisuse | hover | hstopping
    · cases hrun.symm.trans hmisuse
    · exact .inr (.inl (hover.uses huses))
    · exact .inr (.inr (hcaller ▸ hstopping))

theorem doomed_of_not_smooth (hc : ¬ Smooth s act) (h : lifecycle.step s act = some s') :
    Doomed s' := by
  obtain ⟨-, hmove⟩ := step_move h
  cases hmove with
  | initBroker | mqtt | misused => exact absurd trivial hc
  | closeBroker => exact .inr (.inr (.inr rfl))
  | caller h =>
    cases h with
    | misused => exact .inl rfl
    | inside _ _ hsmooth =>
      refine .inr (.inr (.inl ?_))
      exact Bool.not_eq_false _ ▸ mt hsmooth.mp hc
    | lockBig hpc | succeed hpc | fail hpc | destroy hpc | failed hpc | closeDestroy hpc
    | closed hpc =>
      refine absurd ?_ hc
      simp only [Smooth, hpc, SmoothAt]
    | closing hold =>
      refine absurd ?_ hc
      cases hpc : s.caller <;> rw [hpc] at hold <;>
        first | cases hold; done | simp only [Smooth, hpc, SmoothAt]

/-- With no call in progress, what is doomed is not atomic and repeatable. -/
theorem Doomed.not_atomic (hi : Doomed s) (hb : Big s) (hidle : s.caller = .idle) :
    ¬ Atomic s := by
  intro hatomic
  rcases hi with hmisuse | hover | hfails | hcloses
  · cases hatomic.misuse.symm.trans hmisuse
  · exact not_canSucceed hidle (hb.gone hover) (hatomic.repeatable hidle hover)
  · rw [hidle] at hfails
    cases hfails
  · rw [hidle] at hcloses
    cases hcloses

/-- A run in which `close_broker` is not called and no `init_broker` fails is
atomic and repeatable in every state, and of the runs that end with no call in
progress no other one is. -/
theorem atomic_iff (h : lifecycle.run as = some t) :
    (lifecycle.Along Smooth .init as → lifecycle.Throughout Atomic .init as) ∧
    (t.caller = .idle → lifecycle.Throughout Atomic .init as →
      lifecycle.Along Smooth .init as) := by
  refine ⟨Machine.throughout_of_along (fun _ hr => (intact hr).atomic) .init, ?_⟩
  intro hidle hatomic
  rcases Machine.along_or_violated (C := Smooth) .init h with hsmooth | hviolated
  · exact hsmooth
  · obtain ⟨u, act, u', bs, hr, hc, hstep, hrest⟩ := hviolated
    -- the first such step dooms the run, and being doomed is kept up to its end
    have hbig : Big u' := (big hr).step hstep
    have hend : Doomed t ∧ Big t :=
      Machine.runFrom_keeps (I := fun s => Doomed s ∧ Big s)
        (fun _ _ _ hi hs => ⟨hi.1.step hi.2 hs, hi.2.step hs⟩)
        ⟨doomed_of_not_smooth hc hstep, hbig⟩ hrest
    exact absurd (hatomic.last h) (hend.1.not_atomic hend.2 hidle)

def callers (n : Nat) : List LifecycleAct := List.replicate n (.caller {})

def connects (n : Nat) : List LifecycleAct :=
  [.initBroker] ++ callers 10 ++ List.replicate 6 (.mqtt n {}) ++ callers 7

def lostAndBack : List LifecycleAct :=
  connects 0 ++ [.mqtt 0 { leaves := true }] ++ List.replicate 2 (.mqtt 0 {}) ++ connects 1

theorem lostAndBack_atomic : lifecycle.Throughout Atomic .init lostAndBack := by
  obtain ⟨t, ht⟩ := Option.isSome_iff_exists.mp
    (show (lifecycle.run lostAndBack).isSome = true by decide +kernel)
  exact (atomic_iff ht).1 (by decide +kernel)

def initTwice : List LifecycleAct := connects 0 ++ [.initBroker] ++ callers 9

theorem initTwice_not_atomic : ¬ ∀ as s, lifecycle.run as = some s →
    lifecycle.Throughout Atomic .init as := by
  intro hall
  obtain ⟨t, ht, hfailed⟩ := (Option.any_eq_true _ _).mp
    (show (lifecycle.run initTwice).any (·.returned.any (·.ret = -eexist)) = true by
      decide +kernel)
  obtain ⟨x, hx, hret⟩ := List.any_eq_true.mp hfailed
  have hne : x.ret ≠ 0 := by
    rw [of_decide_eq_true hret]
    decide
  have hr : lifecycle.Reaches t := Machine.run_reachesUnder (Machine.along_always _ _) ht
  exact failed_destroys hr hx hne (((hall _ _ ht).last ht).kept x hx hne)

end Lifecycle

end DevAdapter.Broker
