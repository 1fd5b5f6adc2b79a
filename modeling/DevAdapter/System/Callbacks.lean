import DevAdapter.System.Moves

/-!
# The flag of the registered callbacks

The first `MSG_ACCEPT_NEW_CLIENT` registers `process_exception` and the DMA
callback and sets `enableCallback`, whatever the two calls return, and nothing
clears the flag when `clean_global` empties `cb_list`. The thread that does so
may come between any two of these statements, so each is a step here; the model
of the whole program takes them in one and follows this one.
-/

namespace DevAdapter

open Function (update)
open Transition

/-- Where `eventLoop` is: between two messages, or at a statement of
`MSG_ACCEPT_NEW_CLIENT`, up to the one that sets the flag. -/
inductive AcceptPc
  | idle
  | test
  | broker
  | dma
  | enable
  deriving DecidableEq, Repr

structure Callbacks where
  -- `process_exception` is in `cb_list`
  callback : Bool
  -- the DMA library has its callback
  dmaCallback : Bool
  enableCallback : Bool
  pc : AcceptPc
  deriving DecidableEq, Repr

/-- The next statement of `eventLoop`, with what the call in it comes to, and
`clean_global` in `mqtt_thread`. -/
inductive CallbackAct
  | main (registered : Bool)
  | disconnect
  deriving DecidableEq, Repr

namespace Callbacks

def init : Callbacks := ⟨false, false, false, .idle⟩

def step (s : Callbacks) : CallbackAct → Option Callbacks
  | .main registered =>
    match s.pc with
    | .idle => some { s with pc := .test }
    | .test => some { s with pc := if s.enableCallback then .idle else .broker }
    -- the results are not looked at
    | .broker => some { s with callback := s.callback || registered, pc := .dma }
    | .dma => some { s with dmaCallback := s.dmaCallback || registered, pc := .enable }
    | .enable => some { s with enableCallback := true, pc := .idle }
  | .disconnect => some { s with callback := false }

def callbacks : Machine Callbacks CallbackAct := ⟨init, step⟩

def Registered (s : Callbacks) : Prop := s.callback = true ∧ s.dmaCallback = true

instance (s : Callbacks) : Decidable s.Registered := inferInstanceAs (Decidable (_ ∧ _))

/-- Between two messages the flag says that the callbacks are registered, and an
accept that finds one missing tries again. -/
structure Truthful (s : Callbacks) : Prop where
  flag : s.pc = .idle → s.enableCallback = true → s.Registered
  retried : s.pc = .test → ¬ s.Registered →
    ∀ registered s', s.step (.main registered) = some s' → s'.pc = .broker

/-- A call leaves its callback registered, and the connection does not end from
the first call on. -/
def Registers (s : Callbacks) : CallbackAct → Prop
  | .main registered =>
    (s.pc = .broker → (s.callback || registered) = true) ∧
      (s.pc = .dma → (s.dmaCallback || registered) = true)
  | .disconnect => s.enableCallback = false ∧ s.pc ≠ .dma ∧ s.pc ≠ .enable

instance (s : Callbacks) : (act : CallbackAct) → Decidable (Registers s act)
  | .main _ => inferInstanceAs (Decidable ((_ → _) ∧ (_ → _)))
  | .disconnect => inferInstanceAs (Decidable (_ ∧ _ ∧ _))

variable {s s' t : Callbacks} {act : CallbackAct}

-- ---------------------------------------------------------------------------
-- Runs that register
-- ---------------------------------------------------------------------------

/-- The calls so far have registered, and the flag is set only over both. -/
def Kept (s : Callbacks) : Prop :=
  match s.pc with
  | .dma => s.callback = true
  | .enable => s.Registered
  | .idle | .test | .broker => s.enableCallback = true → s.Registered

theorem Kept.step (hi : Kept s) (hc : Registers s act) (h : callbacks.step s act = some s') :
    Kept s' := by
  obtain ⟨callback, dmaCallback, enableCallback, pc⟩ := s
  cases act with
  | disconnect =>
    obtain ⟨hen, hdma, henable⟩ := hc
    obtain rfl := Option.some.inj h
    cases pc with
    | idle | test | broker => exact fun htrue => by cases hen.symm.trans htrue
    | dma => exact absurd rfl hdma
    | enable => exact absurd rfl henable
  | main registered =>
    cases pc <;> obtain rfl := Option.some.inj h
    case idle => exact hi
    case test => cases enableCallback <;> exact hi
    case broker => exact hc.1 rfl
    case dma => exact ⟨hi, hc.2 rfl⟩
    case enable => exact fun _ => hi

theorem kept (h : callbacks.ReachesUnder Registers s) : Kept s :=
  h.invariant (I := Kept) nofun fun _ _ _ _ hi hc hs => hi.step hc hs

theorem Kept.truthful (hi : Kept s) : Truthful s where
  flag hpc := by
    rw [Kept, hpc] at hi
    exact hi
  retried hpc hmissing registered s' hs := by
    rw [Kept, hpc] at hi
    simp only [Callbacks.step, hpc] at hs
    obtain rfl := Option.some.inj hs
    exact if_neg fun hen => hmissing (hi hen)

-- ---------------------------------------------------------------------------
-- A registration that is lost stays lost
-- ---------------------------------------------------------------------------

def CallsFirst (s : Callbacks) : Prop := s.pc = .broker → s.enableCallback = false

theorem callsFirst (h : callbacks.ReachesUnder C s) : CallsFirst s := by
  refine h.invariant (I := CallsFirst) nofun fun s act s' _ hi _ hs => ?_
  obtain ⟨callback, dmaCallback, enableCallback, pc⟩ := s
  cases act with
  | disconnect =>
    obtain rfl := Option.some.inj hs
    exact hi
  | main registered =>
    cases pc <;> obtain rfl := Option.some.inj hs
    case test =>
      cases enableCallback with
      | false => exact fun _ => rfl
      | true => exact nofun
    all_goals exact nofun

/-- A callback is missing, and the flag is set or will be without another call. -/
def Lost (s : Callbacks) : Prop :=
  match s.pc with
  | .idle | .test => s.enableCallback = true ∧ ¬ s.Registered
  | .broker => False
  | .dma => s.callback = false
  | .enable => ¬ s.Registered

theorem lost_of_violated (hi : CallsFirst s) (hc : ¬ Registers s act)
    (h : callbacks.step s act = some s') : Lost s' := by
  obtain ⟨callback, dmaCallback, enableCallback, pc⟩ := s
  cases act with
  | disconnect =>
    obtain rfl := Option.some.inj h
    have hen : pc ≠ .dma → pc ≠ .enable → enableCallback = true := fun hdma henable =>
      (Bool.not_eq_false _).mp fun hen => hc ⟨hen, hdma, henable⟩
    cases pc with
    | idle | test => exact ⟨hen nofun nofun, fun hreg => Bool.false_ne_true hreg.1⟩
    | broker => cases (hen nofun nofun).symm.trans (hi rfl)
    | dma => exact rfl
    | enable => exact fun hreg => Bool.false_ne_true hreg.1
  | main registered =>
    cases pc <;> obtain rfl := Option.some.inj h
    case broker => exact (Bool.not_eq_true _).mp fun hreg => hc ⟨fun _ => hreg, nofun⟩
    case dma => exact fun hreg => hc ⟨nofun, fun _ => hreg.2⟩
    all_goals exact absurd ⟨nofun, nofun⟩ hc

theorem Lost.step (hi : Lost s) (h : callbacks.step s act = some s') : Lost s' := by
  obtain ⟨callback, dmaCallback, enableCallback, pc⟩ := s
  cases act with
  | disconnect =>
    obtain rfl := Option.some.inj h
    have hmissing : ¬ (Callbacks.mk false dmaCallback enableCallback pc).Registered :=
      fun hreg => Bool.false_ne_true hreg.1
    cases pc with
    | idle | test => exact ⟨hi.1, hmissing⟩
    | broker => exact hi
    | dma => exact rfl
    | enable => exact hmissing
  | main registered =>
    cases pc <;> obtain rfl := Option.some.inj h
    case idle => exact hi
    case test =>
      obtain rfl : enableCallback = true := hi.1
      exact hi
    case broker => exact hi.elim
    case dma => exact fun hreg => Bool.false_ne_true (hi.symm.trans hreg.1)
    case enable => exact ⟨rfl, hi⟩

theorem Lost.not_truthful (hi : Lost s) (hpc : s.pc = .idle) : ¬ Truthful s := by
  rw [Lost, hpc] at hi
  exact fun htruth => hi.2 (htruth.flag hpc hi.1)

/-- The flag is truthful in a run of the condition, and in a run that ends between
two messages only then. -/
theorem truthful_iff (hs : callbacks.run acts = some t) :
    (callbacks.Along Registers init acts → callbacks.Throughout Truthful init acts) ∧
      (t.pc = .idle → callbacks.Throughout Truthful init acts →
        callbacks.Along Registers init acts) := by
  constructor
  · intro hc
    exact Machine.throughout_of_along (fun _ hr => (kept hr).truthful) .init hc
  · intro hidle htruth
    rcases Machine.along_or_violated .init hs with hall | ⟨u, a, u', bs, hu, hbad, hstep, hrest⟩
    · exact hall
    · have hlost : Lost t := Machine.runFrom_keeps (I := Lost) (fun _ _ _ => Lost.step)
        (lost_of_violated (callsFirst hu) hbad hstep) hrest
      exact absurd (htruth.last hs) (hlost.not_truthful hidle)

def acceptFirst : List CallbackAct := List.replicate 5 (.main true)

theorem acceptFirst_truthful : callbacks.Throughout Truthful init acceptFirst ∧
    callbacks.Along Registers init acceptFirst := by
  have hrun : callbacks.run acceptFirst = some ⟨true, true, true, .idle⟩ := rfl
  obtain ⟨hsound, hexact⟩ := truthful_iff hrun
  have htruth := hsound (by decide)
  exact ⟨htruth, hexact rfl htruth⟩

theorem disconnectAfterAccept_untruthful : ¬ ∀ s, callbacks.Reaches s → Truthful s := by
  intro h
  obtain ⟨s, hr, hp⟩ := Machine.exists_reaches (M := callbacks)
    (p := fun s => decide (s = ⟨false, true, true, .idle⟩)) (acceptFirst ++ [.disconnect])
    (by decide)
  obtain rfl := of_decide_eq_true hp
  have hreg := ((h _ hr).flag rfl rfl).1
  cases hreg

end Callbacks

-- ---------------------------------------------------------------------------
-- The whole program
-- ---------------------------------------------------------------------------

namespace System

open Callbacks (callbacks)

variable {s s' : System} {act : Act}

def callbackState (s : System) : Callbacks where
  callback := s.callback
  dmaCallback := s.dmaCallback
  enableCallback := s.enableCallback
  pc := if s.main = .register then .broker else .idle

theorem Move.flags (h : Move K s act s') :
    (s'.enableCallback = s.enableCallback ∧ s'.callback = s.callback ∧
        s'.dmaCallback = s.dmaCallback) ∨
      (∃ a, act = .main a ∧ s.main = .register) ∨ act = .disconnect := by
  cases h with
  | @main a s' h =>
    cases h with
    | register _ _ hpc => exact .inr (.inl ⟨a, rfl, hpc⟩)
    | _ => exact .inl ⟨rfl, rfl, rfl⟩
  | post h => cases h <;> exact .inl ⟨rfl, rfl, rfl⟩
  | server h => cases h <;> exact .inl ⟨rfl, rfl, rfl⟩
  | receive h => cases h <;> exact .inl ⟨rfl, rfl, rfl⟩
  | timer h => cases h <;> exact .inl ⟨rfl, rfl, rfl⟩
  | send h => cases h <;> exact .inl ⟨rfl, rfl, rfl⟩
  | spurious | broker | dma => exact .inl ⟨rfl, rfl, rfl⟩
  | disconnect => exact .inr (.inr rfl)

theorem Move.to_register (h : Move K s act s') (hpc : s'.main = .register) :
    s.main = .register ∨ s.enableCallback = false := by
  cases h with
  | main h =>
    cases h with
    | acceptFirst _ _ hen => exact .inr hen
    | crash => exact .inl hpc
    | _ => cases hpc
  | post h => cases h <;> exact .inl hpc
  | server h => cases h <;> exact .inl hpc
  | receive h => cases h <;> exact .inl hpc
  | timer h => cases h <;> exact .inl hpc
  | send h => cases h <;> exact .inl hpc
  | spurious | broker | dma | disconnect => exact .inl hpc

theorem Move.at_register (h : Move K s act s') (hpc : s.main = .register) :
    s'.main = .register ∨ ∃ a, act = .main a := by
  cases h with
  | @main a => exact .inr ⟨a, rfl⟩
  | post h => cases h <;> exact .inl hpc
  | server h => cases h <;> exact .inl hpc
  | receive h => cases h <;> exact .inl hpc
  | timer h => cases h <;> exact .inl hpc
  | send h => cases h <;> exact .inl hpc
  | spurious | broker | dma | disconnect => exact .inl hpc

theorem step_register (hpc : s.main = .register) (h : (adapter K).step s (.main a) = some s') :
    s' = { s with
      callback := s.callback || a.registered
      dmaCallback := s.dmaCallback || a.dmaRegistered
      enableCallback := true
      main := .testTimer } := by
  simp only [adapter, step, mainStep, hpc] at h
  split at h
  · cases h
  · exact (Option.some.inj h).symm

theorem step_disconnect (h : (adapter K).step s .disconnect = some s') :
    s' = { s with callback := false } := by
  obtain ⟨-, hmove⟩ := step_move h
  cases hmove with
  | disconnect => rfl

/-- The registration is three statements of `eventLoop`. -/
theorem callbackState_register (hpc : s.main = .register) (a : Answer) :
    callbacks.runFrom s.callbackState [.main a.registered, .main a.dmaRegistered, .main true] =
      some (callbackState { s with
        callback := s.callback || a.registered
        dmaCallback := s.dmaCallback || a.dmaRegistered
        enableCallback := true
        main := .testTimer }) := by
  simp [callbackState, hpc, Machine.runFrom, callbacks, Callbacks.step]

theorem callbackState_accept (hen : s.enableCallback = false) (hpc : s.main ≠ .register) :
    callbacks.runFrom s.callbackState [.main true, .main true] =
      some { s.callbackState with pc := .broker } := by
  simp [callbackState, hpc, hen, Machine.runFrom, callbacks, Callbacks.step]

theorem callbackState_step (hr : callbacks.Reaches s.callbackState)
    (h : (adapter K).step s act = some s') : callbacks.Reaches s'.callbackState := by
  obtain ⟨-, hmove⟩ := step_move h
  by_cases hcalls : ∃ a, act = .main a ∧ s.main = .register
  · obtain ⟨a, rfl, hpc⟩ := hcalls
    rw [step_register hpc h]
    exact Machine.runFrom_reaches hr (Machine.along_always _ _) (callbackState_register hpc a)
  rcases hmove.flags with ⟨hen, hcb, hdma⟩ | hcall | rfl
  · by_cases hpc' : s'.main = .register
    · by_cases hpc : s.main = .register
      · simpa only [callbackState, hen, hcb, hdma, hpc, hpc'] using hr
      · have hclear := (hmove.to_register hpc').resolve_left hpc
        have hbroker : s'.callbackState = { s.callbackState with pc := .broker } := by
          simp only [callbackState, hen, hcb, hdma, hpc', if_true]
        rw [hbroker]
        exact Machine.runFrom_reaches hr (Machine.along_always _ _)
          (callbackState_accept hclear hpc)
    · have hpc : s.main ≠ .register := fun hpc =>
        (hmove.at_register hpc).elim hpc' fun ⟨a, ha⟩ => hcalls ⟨a, ha, hpc⟩
      simpa only [callbackState, hen, hcb, hdma, if_neg hpc, if_neg hpc'] using hr
  · exact absurd hcall hcalls
  · rw [step_disconnect h]
    have hstep : callbacks.step s.callbackState .disconnect =
        some { s.callbackState with callback := false } := rfl
    exact .step hr trivial hstep

/-- What the whole program does with the callbacks, the statements do one by one. -/
theorem callbackState_reached (h : (adapter K).Reaches s) : callbacks.Reaches s.callbackState :=
  h.invariant (I := fun s => callbacks.Reaches s.callbackState) .init
    fun _ _ _ _ hi _ hs => callbackState_step hi hs

theorem flag_register (h : (adapter K).Reaches s) (hpc : s.main = .register) :
    s.enableCallback = false := by
  refine Callbacks.callsFirst (callbackState_reached h) ?_
  rw [callbackState, if_pos hpc]

theorem Move.exception (h : Move K s act s') (hlost : s.callback = false) {x : Sender}
    {buf : List UInt8} (hx : s'.snd x = .exception buf) : s.snd x = .exception buf := by
  have hput : ∀ {y : Sender} {pc : SendPc}, (∀ buf, pc ≠ .exception buf) →
      update s.snd y pc x = .exception buf → s.snd x = .exception buf := by
    intro y pc hpc hupdate
    have hxy : x ≠ y := by
      rintro rfl
      rw [Function.update_self] at hupdate
      exact hpc buf hupdate
    rwa [Function.update_of_ne hxy] at hupdate
  cases h with
  | broker _ _ hreg =>
    rw [hlost] at hreg
    cases hreg
  | dma => exact hput (by rintro _ ⟨⟩) hx
  | send h =>
    cases h with
    | crash => exact hx
    | _ => exact hput (by rintro _ ⟨⟩) hx
  | main h =>
    cases h with
    | rfMf | inquirySend => exact hput (by rintro _ ⟨⟩) hx
    | _ => exact hx
  | post h => cases h <;> exact hx
  | server h => cases h <;> exact hx
  | receive h => cases h <;> exact hx
  | timer h => cases h <;> exact hx
  | spurious | disconnect => exact hx

structure LostSince (K : Nat) (s t : System) : Prop where
  reached : (adapter K).Reaches t
  enableCallback : t.enableCallback = true
  callback : t.callback = false
  exception : ∀ x buf, t.snd x = .exception buf → s.snd x = .exception buf

theorem LostSince.step {t t' : System} (hi : LostSince K s t)
    (h : (adapter K).step t act = some t') : LostSince K s t' := by
  have hr' : (adapter K).Reaches t' := .step hi.reached trivial h
  obtain ⟨-, hmove⟩ := step_move h
  have hexc : ∀ x buf, t'.snd x = .exception buf → s.snd x = .exception buf :=
    fun x buf hx => hi.exception x buf (hmove.exception hi.callback hx)
  rcases hmove.flags with ⟨hen, hcb, -⟩ | ⟨a, rfl, hpc⟩ | rfl
  · exact ⟨hr', hen.trans hi.enableCallback, hcb.trans hi.callback, hexc⟩
  · have hen := hi.enableCallback
    rw [flag_register hi.reached hpc] at hen
    cases hen
  · rw [step_disconnect h] at hr' hexc ⊢
    exact ⟨hr', hi.enableCallback, rfl, hexc⟩

/-- Once the connection to the broker is lost after the registration, nothing is
registered again, whatever clients are accepted later, and no thread is created
any more to call `process_exception`: only one that was created before can still
do so. -/
theorem lost_for_good (hr : (adapter K).Reaches s) (hen : s.enableCallback = true)
    (hlost : s.callback = false) (hs : (adapter K).runFrom s acts = some s') :
    (s'.enableCallback = true ∧ s'.main ≠ .register ∧ s'.callback = false) ∧
      (∀ t buf, (adapter K).step s' (.callback t true buf) = none) ∧
      ∀ x buf, s'.snd x = .exception buf → s.snd x = .exception buf := by
  have hkept : LostSince K s s' := Machine.runFrom_keeps (I := LostSince K s)
    (fun _ _ _ hi h => hi.step h) ⟨hr, hen, hlost, fun _ _ => id⟩ hs
  have hregister : s'.main ≠ .register := by
    intro hpc
    have hclear := flag_register hkept.reached hpc
    rw [hkept.enableCallback] at hclear
    cases hclear
  refine ⟨⟨hkept.enableCallback, hregister, hkept.callback⟩, fun t buf => ?_, hkept.exception⟩
  simp [adapter, step, callbackStep, hkept.callback]

def lostAndAccepted : List Act :=
  tick ++ mains 6 ++ exitReceive 0 ++ mains 5 ++ acceptClient ++ mains 9

theorem lostAndAccepted_for_good : ∃ s s',
    (adapter 8).run (boot ++ acceptClient ++ mains 9 ++ [.disconnect]) = some s ∧
    (adapter 8).runFrom s lostAndAccepted = some s' ∧
    (s'.enableCallback = true ∧ s'.main ≠ .register ∧ s'.callback = false) ∧
      (∀ t buf, (adapter 8).step s' (.callback t true buf) = none) ∧
      ∀ x buf, s'.snd x = .exception buf → s.snd x = .exception buf := by
  obtain ⟨s, hs, hr⟩ := Machine.exists_run (M := adapter 8) (C := Machine.Always)
    (boot ++ acceptClient ++ mains 9 ++ [.disconnect]) (by decide +kernel)
    (Machine.along_always _ _)
  have hend : ((adapter 8).run (boot ++ acceptClient ++ mains 9 ++ [.disconnect])).any (fun s =>
      s.enableCallback && !s.callback && ((adapter 8).runFrom s lostAndAccepted).isSome) =
        true := by
    decide +kernel
  rw [hs] at hend
  simp only [Option.any_some, Bool.and_eq_true, Bool.not_eq_true'] at hend
  obtain ⟨⟨hen, hlost⟩, hsome⟩ := hend
  obtain ⟨s', hs'⟩ := Option.isSome_iff_exists.mp hsome
  exact ⟨s, s', hs, hs', lost_for_good hr hen hlost hs'⟩

end System

end DevAdapter
