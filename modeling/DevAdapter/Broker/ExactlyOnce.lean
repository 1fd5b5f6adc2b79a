import DevAdapter.Broker.Dispatch
import DevAdapter.Lib.Mqtt
import Mathlib.Tactic.SplitIfs

/-!
# Each callback once

`message_callback` calls the callback of an entry itself when the thread it
started for the entry seems to have failed, and it takes the `NULL` that this
thread leaves in `msg->buf` when it is through for such a failure. In a run to
the end each entry whose filter matches has its callback called exactly once
if and only if no thread is through before that test.
-/

namespace DevAdapter.Broker

open Function (update)
open Transition

def Delivery.Subscribed (d : Delivery) (i : Nat) (dev : Entry) : Prop :=
  d.cbList[i]? = some dev ∧ d.hears dev = true

def Delivery.due (d : Delivery) (i : Nat) : Bool :=
  d.cbList[i]?.any fun dev => d.hears dev

theorem Delivery.due_of_subscribed {d : Delivery} (h : d.Subscribed i dev) : d.due i = true := by
  simp [Delivery.due, h.1, h.2]

theorem Delivery.lt_of_due {d : Delivery} (hend : d.cbList[i]? = none) (hdue : d.due k = true) :
    k < i := by
  by_contra hle
  have hnone : d.cbList[k]? = none := by
    rw [List.getElem?_eq_none_iff] at hend ⊢
    omega
  simp [Delivery.due, hnone] at hdue

theorem Delivery.ne_of_due {d : Delivery} (hdev : d.cbList[i]? = some dev)
    (hno : d.hears dev = false) (hdue : d.due k = true) : k ≠ i := by
  rintro rfl
  simp [Delivery.due, hdev, hno] at hdue

/-- The entry the loop is at, once its filter is found to match. -/
def CallbackPc.entry : CallbackPc → Option (Nat × Entry)
  | .allocMsg i dev | .allocBuf i dev | .create i dev | .check i dev | .direct i dev =>
    some (i, dev)
  | .test _ | .returned => none

/-- No thread of pass `i` is created yet. -/
def CallbackPc.ahead (i : Nat) : CallbackPc → Bool
  | .test j | .allocMsg j _ | .allocBuf j _ | .create j _ => j ≤ i
  | .check j _ | .direct j _ => j < i
  | .returned => false

/-- Whether `message_callback` still calls callback `i` or starts a thread for
it, if the threads started are not through before their test. -/
def CallbackPc.remains (i : Nat) (worker : WorkerPc) : CallbackPc → Bool
  | .test j | .allocMsg j _ | .allocBuf j _ | .create j _ | .direct j _ => j ≤ i
  | .check j _ => j < i || (j = i && worker = .absent)
  | .returned => false

def CallbackPc.checks : CallbackPc → Option Nat
  | .check i _ => some i
  | _ => none

namespace Dispatch

/-- `message_callback` tests `msg->buf` before the thread it started has freed it. -/
def InTime (s : Dispatch) : DispatchAct → Prop
  | .callback _ => ∀ i ∈ s.pc.checks, (s.msgs i).worker ≠ .exited
  | .worker _ => True

instance (s : Dispatch) : (act : DispatchAct) → Decidable (InTime s act)
  | .callback _ => inferInstanceAs (Decidable (∀ i ∈ s.pc.checks, _))
  | .worker _ => isTrue trivial

def calls (s : Dispatch) (i : Nat) : Nat := s.invoked.countP fun v => v.entry = i

/-- The loop is through, and the threads it started. -/
def Complete (d : Delivery) (s : Dispatch) : Prop :=
  s.pc = .returned ∧ ∀ i < d.cbList.length,
    (s.msgs i).worker = .absent ∨ (s.msgs i).worker = .exited

instance (d : Delivery) (s : Dispatch) : Decidable (Complete d s) :=
  inferInstanceAs (Decidable (_ ∧ ∀ i < d.cbList.length, _))

/-- Every entry that matches was called once, with the message, and no other. -/
def ExactlyOnce (d : Delivery) (s : Dispatch) : Prop :=
  (∀ i, s.calls i = if d.due i then 1 else 0) ∧
  ∀ v ∈ s.invoked, ∃ dev, d.Subscribed v.entry dev ∧ v = d.invocation v.entry dev

inductive CallbackMove (d : Delivery) (s : Dispatch) : Dispatch → Prop
  | finish {i} (hpc : s.pc = .test i) (hend : d.cbList[i]? = none) :
    CallbackMove d s { s with pc := .returned }
  | skip {i dev} (hpc : s.pc = .test i) (hdev : d.cbList[i]? = some dev)
      (hno : d.hears dev = false) :
    CallbackMove d s { s with pc := .test (i + 1) }
  | enter {i dev} (hpc : s.pc = .test i) (hsub : d.Subscribed i dev) :
    CallbackMove d s { s with pc := .allocMsg i dev }
  | allocMsg {i dev} (hpc : s.pc = .allocMsg i dev) :
    CallbackMove d s { s with msg := some i, pc := .allocBuf i dev }
  | noMsg {i dev} (hpc : s.pc = .allocMsg i dev ∨ s.pc = .allocBuf i dev) :
    CallbackMove d s { s with msg := none, pc := .check i dev }
  | allocBuf {i dev} (hpc : s.pc = .allocBuf i dev) :
    CallbackMove d s { s with msgs := update s.msgs i (d.msgPriv dev), pc := .create i dev }
  | create {i dev} (hpc : s.pc = .create i dev) :
    CallbackMove d s { s with
      msgs := update s.msgs i { s.msgs i with worker := .call }, ret := 0, pc := .check i dev }
  | noThread {i dev} (hpc : s.pc = .create i dev) :
    CallbackMove d s { s with ret := eagain, pc := .check i dev }
  | fallBack {i dev} (hpc : s.pc = .check i dev)
      (hfail : s.msg.all (fun j => (s.msgs j).buf = none) = true ∨ s.ret ≠ 0) :
    CallbackMove d s { s with pc := .direct i dev }
  | leave {i dev} (hpc : s.pc = .check i dev)
      (hok : ¬ (s.msg.all (fun j => (s.msgs j).buf = none) = true ∨ s.ret ≠ 0)) :
    CallbackMove d s { s with pc := .test (i + 1) }
  | direct {i dev} (hpc : s.pc = .direct i dev) :
    CallbackMove d s { s with invoked := s.invoked ++ [d.invocation i dev], pc := .test (i + 1) }

inductive WorkerMove (s : Dispatch) (i : Nat) : Dispatch → Prop
  | call (hpc : (s.msgs i).worker = .call) : WorkerMove s i { s with
      msgs := update s.msgs i { s.msgs i with worker := .free }
      invoked := s.invoked ++ [⟨i, (s.msgs i).recvCallback, (s.msgs i).buf, (s.msgs i).bufLen,
        (s.msgs i).fromTopic⟩] }
  | free (hpc : (s.msgs i).worker = .free) : WorkerMove s i { s with
      msgs := update s.msgs i { s.msgs i with buf := none, bufLen := 0, worker := .exited } }

variable {d : Delivery} {s s' : Dispatch}

theorem callbackStep_move (h : s.callbackStep d ok = some s') : CallbackMove d s s' := by
  cases hpc : s.pc with
  | test i =>
    simp only [callbackStep, hpc] at h
    split at h <;> rename_i hdev <;> cases h
    · exact .finish hpc hdev
    · split_ifs with hm
      · exact .enter hpc ⟨hdev, hm⟩
      · exact .skip hpc hdev (by simpa using hm)
  | allocMsg i dev =>
    simp only [callbackStep, hpc] at h
    split_ifs at h <;> cases h
    · exact .allocMsg hpc
    · exact .noMsg (.inl hpc)
  | allocBuf i dev =>
    simp only [callbackStep, hpc] at h
    split_ifs at h <;> cases h
    · exact .allocBuf hpc
    · exact .noMsg (.inr hpc)
  | create i dev =>
    simp only [callbackStep, hpc] at h
    split_ifs at h <;> cases h
    · exact .create hpc
    · exact .noThread hpc
  | check i dev =>
    simp only [callbackStep, hpc] at h
    cases h
    split_ifs with hfail
    · exact .fallBack hpc hfail
    · exact .leave hpc hfail
  | direct i dev =>
    simp only [callbackStep, hpc] at h
    cases h
    exact .direct hpc
  | returned => simp [callbackStep, hpc] at h

theorem workerStep_move (h : s.workerStep i = some s') : WorkerMove s i s' := by
  cases hpc : (s.msgs i).worker with
  | absent | exited => simp [workerStep, hpc] at h
  | call =>
    simp only [workerStep, hpc] at h
    cases h
    exact .call hpc
  | free =>
    simp only [workerStep, hpc] at h
    cases h
    exact .free hpc

-- ---------------------------------------------------------------------------
-- What holds in every run
-- ---------------------------------------------------------------------------

/-- What holds of the `struct msg_priv` of pass `i` and its thread. -/
structure MsgOk (d : Delivery) (s : Dispatch) (i : Nat) : Prop where
  ahead : s.pc.ahead i = true → (s.msgs i).worker = .absent
  running : (s.msgs i).worker = .call ∨ (s.msgs i).worker = .free → ∃ dev, d.Subscribed i dev ∧
    s.msgs i = { d.msgPriv dev with worker := (s.msgs i).worker }
  exited : (s.msgs i).worker = .exited → (s.msgs i).buf = none
  called : (s.msgs i).worker = .free ∨ (s.msgs i).worker = .exited → 1 ≤ s.calls i
  created : ∀ dev, s.pc = .create i dev → s.msg = some i ∧ s.msgs i = d.msgPriv dev
  checked : ∀ dev, s.pc = .check i dev →
    if (s.msgs i).worker = .absent then s.msg = none ∨ s.ret ≠ 0 else s.msg = some i ∧ s.ret = 0

structure Orderly (d : Delivery) (s : Dispatch) : Prop where
  entry : ∀ i dev, s.pc.entry = some (i, dev) → d.Subscribed i dev
  allocated : ∀ i dev, s.pc = .allocBuf i dev → s.msg = some i
  msgs : ∀ i, MsgOk d s i
  invoked : ∀ v ∈ s.invoked, ∃ dev, d.Subscribed v.entry dev ∧ v = d.invocation v.entry dev

theorem msgOk_init (d : Delivery) (i : Nat) : MsgOk d (.init d) i where
  ahead _ := rfl
  running h := absurd h (by simp [init, MsgPriv.absent])
  exited := nofun
  called h := absurd h (by simp [init, MsgPriv.absent])
  created _ := nofun
  checked _ := nofun

theorem orderly_init (d : Delivery) : Orderly d (.init d) where
  entry _ _ := nofun
  allocated _ _ := nofun
  msgs := msgOk_init d
  invoked _ := nofun

theorem MsgOk.congr (hi : MsgOk d s i) (hm : s'.msgs i = s.msgs i) (hv : s.calls i ≤ s'.calls i)
    (ha : s'.pc.ahead i = true → s.pc.ahead i = true)
    (hcreated : ∀ dev, s'.pc = .create i dev → s'.msg = some i ∧ s.msgs i = d.msgPriv dev)
    (hchecked : ∀ dev, s'.pc = .check i dev → if (s.msgs i).worker = .absent
      then s'.msg = none ∨ s'.ret ≠ 0 else s'.msg = some i ∧ s'.ret = 0) : MsgOk d s' i := by
  constructor
  · rw [hm]
    exact fun h => hi.ahead (ha h)
  · rw [hm]
    exact hi.running
  · rw [hm]
    exact hi.exited
  · rw [hm]
    exact fun h => Nat.le_trans (hi.called h) hv
  · rw [hm]
    exact hcreated
  · rw [hm]
    exact hchecked

theorem calls_append (s : Dispatch) (v : Invocation) (i : Nat) :
    (s.invoked ++ [v]).countP (fun v => v.entry = i) = s.calls i + if v.entry = i then 1 else 0 := by
  simp [calls, List.countP_append, List.countP_cons]

theorem calls_le_append (s : Dispatch) (v : Invocation) (i : Nat) :
    s.calls i ≤ (s.invoked ++ [v]).countP fun v => v.entry = i := by
  rw [calls_append]
  exact Nat.le_add_right _ _

theorem Orderly.absent (hi : Orderly d s)
    (hpc : s.pc = .allocMsg i dev ∨ s.pc = .allocBuf i dev ∨ s.pc = .create i dev) :
    (s.msgs i).worker = .absent := by
  refine (hi.msgs i).ahead ?_
  rcases hpc with hpc | hpc | hpc <;> simp [hpc, CallbackPc.ahead]

theorem CallbackMove.ahead_of_ahead (h : CallbackMove d s s') (hk : s'.pc.ahead k = true) :
    s.pc.ahead k = true := by
  cases h with
  | finish => cases hk
  | noMsg hpc =>
    rcases hpc with hpc | hpc <;> rw [hpc] <;>
      simp only [CallbackPc.ahead, decide_eq_true_eq] at hk ⊢ <;> omega
  | skip hpc | enter hpc | allocMsg hpc | allocBuf hpc | create hpc | noThread hpc
    | fallBack hpc | leave hpc | direct hpc =>
    rw [hpc]
    simp only [CallbackPc.ahead, decide_eq_true_eq] at hk ⊢
    omega

theorem Orderly.callback_msgs (hi : Orderly d s) (h : CallbackMove d s s') (k : Nat) :
    MsgOk d s' k := by
  have hk := hi.msgs k
  have hahead : s'.pc.ahead k = true → s.pc.ahead k = true := h.ahead_of_ahead
  cases h with
  | finish | skip | enter | allocMsg | leave | fallBack =>
    exact hk.congr rfl (Nat.le_refl _) hahead (fun _ => nofun) fun _ => nofun
  | @noMsg i dev hpc =>
    have habsent := hi.absent (hpc.imp_right .inl)
    refine hk.congr rfl (Nat.le_refl _) hahead (fun _ => nofun) fun dev' hcheck => ?_
    obtain ⟨rfl, -⟩ := CallbackPc.check.inj hcheck
    rw [if_pos habsent]
    exact .inl rfl
  | @noThread i dev hpc =>
    have habsent := hi.absent (.inr (.inr hpc))
    refine hk.congr rfl (Nat.le_refl _) hahead (fun _ => nofun) fun dev' hcheck => ?_
    obtain ⟨rfl, -⟩ := CallbackPc.check.inj hcheck
    rw [if_pos habsent]
    exact .inr (show eagain ≠ 0 by decide)
  | @allocBuf i dev hpc =>
    by_cases hki : k = i
    · subst hki
      have habsent := hi.absent (.inr (.inl hpc))
      refine ⟨fun _ => by simp [Delivery.msgPriv], by simp [Delivery.msgPriv],
        by simp [Delivery.msgPriv], by simp [Delivery.msgPriv], fun dev' hcreate => ?_,
        fun _ => nofun⟩
      obtain ⟨-, rfl⟩ := CallbackPc.create.inj hcreate
      exact ⟨hi.allocated k dev hpc, by simp⟩
    · refine hk.congr (by simp [hki]) (Nat.le_refl _) hahead (fun dev' hcreate => ?_)
        fun _ => nofun
      exact absurd (CallbackPc.create.inj hcreate).1.symm hki
  | @create i dev hpc =>
    by_cases hki : k = i
    · subst hki
      obtain ⟨hmsg, hpriv⟩ := hk.created dev hpc
      have hsub := hi.entry k dev (by rw [hpc]; rfl)
      refine ⟨fun h => by simp [CallbackPc.ahead] at h, fun _ => ⟨dev, hsub, by simp [hpriv]⟩,
        by simp, by simp, fun _ => nofun, fun dev' _ => ?_⟩
      simp [hmsg]
    · refine hk.congr (by simp [hki]) (Nat.le_refl _) hahead (fun _ => nofun)
        fun dev' hcheck => ?_
      exact absurd (CallbackPc.check.inj hcheck).1.symm hki
  | direct =>
    exact hk.congr rfl (calls_le_append s _ k) hahead (fun _ => nofun) fun _ => nofun

theorem Orderly.worker_msgs (hi : Orderly d s) (h : WorkerMove s i s') (k : Nat) :
    MsgOk d s' k := by
  have hk := hi.msgs k
  by_cases hki : k = i
  · subst hki
    cases h with
    | call hpc =>
      have hne : (s.msgs k).worker ≠ .absent := by rw [hpc]; exact nofun
      obtain ⟨dev, hsub, hpriv⟩ := hk.running (.inl hpc)
      refine ⟨fun ha => absurd (hk.ahead ha) hne, fun _ => ⟨dev, hsub, ?_⟩, by simp, fun _ => ?_,
        fun dev' hcreate => ?_, fun dev' hcheck => ?_⟩
      · rw [hpriv]
        simp
      · rw [calls, calls_append]
        simp
      · have := (hk.created dev' hcreate).2
        rw [this] at hne
        exact absurd rfl hne
      · have := hk.checked dev' hcheck
        rw [if_neg hne] at this
        simpa using this
    | free hpc =>
      have hne : (s.msgs k).worker ≠ .absent := by rw [hpc]; exact nofun
      refine ⟨fun ha => absurd (hk.ahead ha) hne, by simp, by simp, fun _ => hk.called (.inl hpc),
        fun dev' hcreate => ?_, fun dev' hcheck => ?_⟩
      · have := (hk.created dev' hcreate).2
        rw [this] at hne
        exact absurd rfl hne
      · have := hk.checked dev' hcheck
        rw [if_neg hne] at this
        simpa using this
  · cases h with
    | call =>
      exact hk.congr (by simp [hki]) (calls_le_append s _ k) id hk.created hk.checked
    | free => exact hk.congr (by simp [hki]) (Nat.le_refl _) id hk.created hk.checked

theorem Orderly.callback (hi : Orderly d s) (h : CallbackMove d s s') : Orderly d s' := by
  refine ⟨?_, ?_, hi.callback_msgs h, ?_⟩
  · cases h with
    | enter hpc hsub =>
      rintro k dev h
      obtain ⟨rfl, rfl⟩ := Prod.mk.inj (Option.some.inj h)
      exact hsub
    | noMsg hpc =>
      rintro k dev h
      exact hi.entry k dev (by rcases hpc with hpc | hpc <;> rw [hpc] <;> exact h)
    | allocMsg hpc | allocBuf hpc | create hpc | noThread hpc | fallBack hpc =>
      rintro k dev h
      exact hi.entry k dev (by rw [hpc]; exact h)
    | _ => exact fun _ _ => nofun
  · cases h with
    | allocMsg =>
      rintro k dev h
      rw [(CallbackPc.allocBuf.inj h).1]
    | _ => exact fun _ _ => nofun
  · cases h with
    | @direct i dev hpc =>
      intro v hv
      rcases List.mem_append.mp hv with hv | hv
      · exact hi.invoked v hv
      · rw [List.mem_singleton.mp hv]
        exact ⟨dev, hi.entry i dev (by rw [hpc]; rfl), rfl⟩
    | _ => exact hi.invoked

theorem Orderly.worker (hi : Orderly d s) (h : WorkerMove s i s') : Orderly d s' := by
  refine ⟨?_, ?_, hi.worker_msgs h, ?_⟩
  · cases h <;> exact hi.entry
  · cases h <;> exact hi.allocated
  · cases h with
    | call hpc =>
      intro v hv
      rcases List.mem_append.mp hv with hv | hv
      · exact hi.invoked v hv
      · rw [List.mem_singleton.mp hv]
        obtain ⟨dev, hsub, hpriv⟩ := (hi.msgs i).running (.inl hpc)
        refine ⟨dev, hsub, ?_⟩
        rw [hpriv]
        rfl
    | free => exact hi.invoked

theorem Orderly.step (hi : Orderly d s) (h : (dispatch d).step s act = some s') :
    Orderly d s' := by
  cases act with
  | callback ok => exact hi.callback (callbackStep_move h)
  | worker i => exact hi.worker (workerStep_move h)

theorem orderly (h : (dispatch d).ReachesUnder C s) : Orderly d s :=
  h.invariant (orderly_init d) fun _ _ _ _ hi _ hs => hi.step hs

-- ---------------------------------------------------------------------------
-- Runs in which no thread is through before its test
-- ---------------------------------------------------------------------------

/-- How many calls of callback `i` are to come: one by its thread, or one that
`message_callback` makes or starts a thread for. -/
def owed (d : Delivery) (s : Dispatch) (i : Nat) : Nat :=
  (if (s.msgs i).worker = .call then 1 else 0) +
    if d.due i && s.pc.remains i (s.msgs i).worker then 1 else 0

def Accounted (d : Delivery) (s : Dispatch) : Prop :=
  ∀ i, s.calls i + s.owed d i = if d.due i then 1 else 0

theorem accounted_init (d : Delivery) : Accounted d (.init d) := by
  intro i
  simp [calls, owed, init, MsgPriv.absent, CallbackPc.remains]

theorem Accounted.congr (hi : Accounted d s) (hv : s'.invoked = s.invoked)
    (ho : ∀ i, s'.owed d i = s.owed d i) : Accounted d s' := by
  intro i
  rw [ho, calls, hv]
  exact hi i

theorem owed_congr (hm : s'.msgs = s.msgs) (hr : d.due i = true →
      s'.pc.remains i (s.msgs i).worker = s.pc.remains i (s.msgs i).worker) :
    s'.owed d i = s.owed d i := by
  simp only [owed, hm]
  cases hdue : d.due i with
  | true => rw [hr hdue]
  | false => rfl

theorem remains_check_absent (h : (s.msgs i).worker = .absent) (dev : Entry) (k : Nat) :
    (CallbackPc.check i dev).remains k (s.msgs k).worker = decide (i ≤ k) := by
  by_cases hk : i = k
  · subst hk
    simp [CallbackPc.remains, h]
  · have hle : i < k ↔ i ≤ k := by omega
    simp [CallbackPc.remains, hk, hle]

theorem remains_check_started (h : (s.msgs i).worker ≠ .absent) (dev : Entry) (k : Nat) :
    (CallbackPc.check i dev).remains k (s.msgs k).worker = decide (i < k) := by
  by_cases hk : i = k
  · subst hk
    simp [CallbackPc.remains, h]
  · simp [CallbackPc.remains, hk]

theorem remains_started (pc : CallbackPc) (k : Nat) (w w' : WorkerPc) (h : w ≠ .absent)
    (h' : w' ≠ .absent) : pc.remains k w = pc.remains k w' := by
  cases pc <;> simp [CallbackPc.remains, h, h']

theorem Orderly.absent_of_fallBack (hi : Orderly d s) (hc : InTime s (.callback ok))
    (hpc : s.pc = .check i dev)
    (hfail : s.msg.all (fun j => (s.msgs j).buf = none) = true ∨ s.ret ≠ 0) :
    (s.msgs i).worker = .absent := by
  by_contra hne
  have hchecked := (hi.msgs i).checked dev hpc
  rw [if_neg hne] at hchecked
  have hexited : (s.msgs i).worker ≠ .exited := hc i (by rw [hpc]; rfl)
  obtain ⟨dev', -, hpriv⟩ := (hi.msgs i).running (by
    cases hw : (s.msgs i).worker <;> simp_all)
  rw [hchecked.1, hchecked.2, Option.all_some, hpriv] at hfail
  simp [Delivery.msgPriv] at hfail

theorem Orderly.started_of_leave (hi : Orderly d s) (hpc : s.pc = .check i dev)
    (hok : ¬ (s.msg.all (fun j => (s.msgs j).buf = none) = true ∨ s.ret ≠ 0)) :
    (s.msgs i).worker ≠ .absent := by
  intro habsent
  have hchecked := (hi.msgs i).checked dev hpc
  rw [if_pos habsent] at hchecked
  refine hok (hchecked.imp_left fun hmsg => ?_)
  rw [hmsg]
  rfl

theorem Accounted.create (hi : Accounted d s) (ho : Orderly d s) (hpc : s.pc = .create i dev) :
    Accounted d { s with
      msgs := update s.msgs i { s.msgs i with worker := .call }, ret := 0, pc := .check i dev } := by
  intro k
  have hk := hi k
  have habsent := ho.absent (.inr (.inr hpc))
  by_cases hki : k = i
  · subst hki
    have hdue := Delivery.due_of_subscribed (ho.entry k dev (by rw [hpc]; rfl))
    simp only [owed, hpc, hdue, habsent, CallbackPc.remains] at hk
    simpa [owed, hdue, CallbackPc.remains, calls] using hk
  · have hremains : (CallbackPc.check i dev).remains k (s.msgs k).worker =
        (CallbackPc.create i dev).remains k (s.msgs k).worker := by
      rw [remains_check_absent habsent]
      rfl
    simp only [owed, hpc] at hk
    simpa [owed, hki, hremains, calls] using hk

theorem Accounted.direct (hi : Accounted d s) (ho : Orderly d s) (hpc : s.pc = .direct i dev) :
    Accounted d { s with
      invoked := s.invoked ++ [d.invocation i dev], pc := .test (i + 1) } := by
  intro k
  have hk := hi k
  have hdue := Delivery.due_of_subscribed (ho.entry i dev (by rw [hpc]; rfl))
  have hlt : decide (i + 1 ≤ i) = false := decide_eq_false (Nat.not_succ_le_self i)
  rw [calls, calls_append]
  simp only [owed, hpc, CallbackPc.remains, Delivery.invocation] at hk ⊢
  by_cases hki : i = k
  · subst hki
    simp only [hdue, hlt, Nat.le_refl, decide_true, Bool.and_true, Bool.and_false, if_true,
      Bool.false_eq_true, if_false] at hk ⊢
    omega
  · have hle : i + 1 ≤ k ↔ i ≤ k := by omega
    simpa only [hki, hle, if_false, Nat.add_zero] using hk

theorem Accounted.callback (hi : Accounted d s) (ho : Orderly d s)
    (hc : InTime s (.callback ok)) (h : CallbackMove d s s') : Accounted d s' := by
  cases h with
  | @finish i hpc hend =>
    refine hi.congr rfl fun k => owed_congr rfl fun hdue => ?_
    have hlt : k < i := Delivery.lt_of_due hend hdue
    simp [hpc, CallbackPc.remains, hlt]
  | @skip i dev hpc hdev hno =>
    refine hi.congr rfl fun k => owed_congr rfl fun hdue => ?_
    have hne : k ≠ i := Delivery.ne_of_due hdev hno hdue
    simp only [hpc, CallbackPc.remains, decide_eq_decide]
    omega
  | enter hpc | allocMsg hpc =>
    exact hi.congr rfl fun k => owed_congr rfl fun _ => by simp [hpc, CallbackPc.remains]
  | noMsg hpc =>
    have habsent := ho.absent (hpc.imp_right .inl)
    refine hi.congr rfl fun k => owed_congr rfl fun _ => ?_
    rw [remains_check_absent habsent]
    rcases hpc with hpc | hpc <;> rw [hpc] <;> rfl
  | noThread hpc =>
    have habsent := ho.absent (.inr (.inr hpc))
    refine hi.congr rfl fun k => owed_congr rfl fun _ => ?_
    rw [remains_check_absent habsent, hpc]
    rfl
  | @allocBuf i dev hpc =>
    have habsent := ho.absent (.inr (.inl hpc))
    have hworker : ∀ k, (update s.msgs i (d.msgPriv dev) k).worker = (s.msgs k).worker :=
      fun k => map_update MsgPriv.worker k habsent.symm
    refine hi.congr rfl fun k => ?_
    simp only [owed, hworker, hpc]
    rfl
  | create hpc => exact hi.create ho hpc
  | @fallBack i dev hpc hfail =>
    have habsent := ho.absent_of_fallBack hc hpc hfail
    refine hi.congr rfl fun k => owed_congr rfl fun _ => ?_
    rw [hpc, remains_check_absent habsent]
    rfl
  | @leave i dev hpc hok =>
    have hstarted := ho.started_of_leave hpc hok
    refine hi.congr rfl fun k => owed_congr rfl fun _ => ?_
    rw [hpc, remains_check_started hstarted]
    simp only [CallbackPc.remains, decide_eq_decide]
    omega
  | direct hpc => exact hi.direct ho hpc

theorem Accounted.worker (hi : Accounted d s) (h : WorkerMove s i s') : Accounted d s' := by
  intro k
  have hk := hi k
  by_cases hki : k = i
  · subst hki
    cases h with
    | call hpc =>
      rw [calls, calls_append]
      have hremains := remains_started s.pc k .free .call nofun nofun
      simp only [owed, hpc] at hk
      simp only [owed, Function.update_self, hremains, if_true, reduceCtorEq, if_false] at hk ⊢
      omega
    | free hpc =>
      have hremains := remains_started s.pc k .exited .free nofun nofun
      simp only [owed, hpc] at hk
      simpa [owed, hremains, calls] using hk
  · cases h with
    | call =>
      rw [calls, calls_append]
      simpa [owed, hki, Ne.symm hki] using hk
    | free => simpa [owed, hki, calls] using hk

theorem Accounted.step (hi : Accounted d s) (ho : Orderly d s) (hc : InTime s act)
    (h : (dispatch d).step s act = some s') : Accounted d s' := by
  cases act with
  | callback ok => exact hi.callback ho hc (callbackStep_move h)
  | worker i => exact hi.worker (workerStep_move h)

theorem Complete.exactlyOnce (hcomplete : Complete d s) (ho : Orderly d s) (hi : Accounted d s) :
    ExactlyOnce d s := by
  refine ⟨fun i => ?_, ho.invoked⟩
  have hworker : (s.msgs i).worker ≠ .call := by
    intro hcall
    obtain ⟨dev, hsub, -⟩ := (ho.msgs i).running (.inl hcall)
    rcases hcomplete.2 i (List.getElem?_eq_some_iff.mp hsub.1).1 with h | h <;>
      rw [hcall] at h <;> cases h
  have := hi i
  simpa [owed, hcomplete.1, CallbackPc.remains, hworker] using this

-- ---------------------------------------------------------------------------
-- A thread that is through before its test
-- ---------------------------------------------------------------------------

/-- Callback `i` was called twice, or once and `message_callback` is about to call it. -/
def Twice (i : Nat) (s : Dispatch) : Prop :=
  2 ≤ s.calls i ∨ 1 ≤ s.calls i ∧ ∃ dev, s.pc = .direct i dev

theorem Twice.step (hi : Twice i s) (h : (dispatch d).step s act = some s') : Twice i s' := by
  cases act with
  | callback ok =>
    have hmove := callbackStep_move h
    cases hmove with
    | @direct j dev hpc =>
      refine .inl ?_
      rw [calls, calls_append]
      rcases hi with h2 | ⟨h1, dev', hpc'⟩
      · omega
      · obtain ⟨rfl, -⟩ := CallbackPc.direct.inj (hpc.symm.trans hpc')
        rw [Delivery.invocation, if_pos rfl]
        omega
    | noMsg hpc =>
      refine .inl (hi.resolve_right ?_)
      rintro ⟨-, dev, hpc'⟩
      rcases hpc with hpc | hpc <;> rw [hpc] at hpc' <;> cases hpc'
    | _ =>
      refine .inl (hi.resolve_right ?_)
      rintro ⟨-, dev, hpc'⟩
      simp_all
  | worker j =>
    have hmove := workerStep_move h
    cases hmove with
    | call =>
      have hle := calls_le_append s ⟨j, (s.msgs j).recvCallback, (s.msgs j).buf,
        (s.msgs j).bufLen, (s.msgs j).fromTopic⟩ i
      exact hi.imp (Nat.le_trans · hle) fun h => ⟨Nat.le_trans h.1 hle, h.2⟩
    | free => exact hi

/-- The `NULL` of a thread that is through makes `message_callback` call again. -/
theorem twice_of_late (ho : Orderly d s) (hc : ¬ InTime s act)
    (h : (dispatch d).step s act = some s') : ∃ i, Twice i s' := by
  cases act with
  | worker i => exact absurd trivial hc
  | callback ok =>
    simp only [InTime, not_forall, not_not] at hc
    obtain ⟨i, hi, hexited⟩ := hc
    cases hpc : s.pc with
    | check j dev =>
      rw [hpc] at hi
      obtain rfl : j = i := Option.some.inj hi
      have hone := (ho.msgs j).called (.inr hexited)
      have hchecked := (ho.msgs j).checked dev hpc
      rw [if_neg (by rw [hexited]; exact nofun)] at hchecked
      have hbuf := (ho.msgs j).exited hexited
      have hmove := callbackStep_move h
      cases hmove with
      | @fallBack k dev' hpc' =>
        obtain ⟨rfl, -⟩ := CallbackPc.check.inj (hpc.symm.trans hpc')
        exact ⟨j, .inr ⟨hone, dev', rfl⟩⟩
      | leave hpc' hok =>
        refine absurd (.inl ?_) hok
        simp [hchecked.1, hbuf]
      | _ => simp_all
    | _ =>
      rw [hpc] at hi
      cases hi

/-- In a run to the end every callback is called exactly once if and only if
no thread has freed its message when `message_callback` tests it. -/
theorem dispatched_once_iff (hs : (dispatch d).run acts = some s) (hcomplete : Complete d s) :
    ExactlyOnce d s ↔ (dispatch d).Along InTime (.init d) acts := by
  constructor
  · intro honce
    rcases Machine.along_or_violated (C := InTime) .init hs with hall |
      ⟨u, act, u', acts', hu, hc, hstep, hrest⟩
    · exact hall
    · obtain ⟨i, htwice⟩ := twice_of_late (orderly hu) hc hstep
      have htwice := Machine.runFrom_keeps (I := Twice i) (fun _ _ _ hi h => hi.step h) htwice hrest
      have hone := honce.1 i
      rcases htwice with h2 | ⟨-, dev, hpc⟩
      · split at hone <;> omega
      · rw [hcomplete.1] at hpc
        cases hpc
  · intro hall
    have hr := Machine.run_reachesUnder hall hs
    refine hcomplete.exactlyOnce (orderly hr) (hr.invariant (accounted_init d) ?_)
    exact fun _ _ _ hr hi hc hs => hi.step (orderly hr) hc hs

def twoOfThree : Delivery where
  matchesSub := Mqtt.topicMatches
  cbList := [⟨['+'], 7⟩, ⟨['b'], 8⟩, ⟨['a'], 9⟩]
  topic := ['a']
  payload := [1, 2]
  ret := 0

def oneThread : List DispatchAct :=
  List.replicate 4 (.callback true) ++ [.worker 0, .callback true, .worker 0] ++
    List.replicate 2 (.callback true) ++ List.replicate 4 (.callback false)

theorem oneThread_exactlyOnce :
    ∃ s, (dispatch twoOfThree).run oneThread = some s ∧ ExactlyOnce twoOfThree s := by
  obtain ⟨s, hs, hcomplete⟩ := (Option.any_eq_true (fun s => decide (Complete twoOfThree s)) _).mp
    (by decide +kernel : ((dispatch twoOfThree).run oneThread).any
      (fun s => decide (Complete twoOfThree s)) = true)
  exact ⟨s, hs, (dispatched_once_iff hs (of_decide_eq_true hcomplete)).mpr (by decide +kernel)⟩

def throughFirst : List DispatchAct :=
  List.replicate 4 (.callback true) ++ [.worker 0, .worker 0] ++ List.replicate 3 (.callback true)
    ++ List.replicate 5 (.callback false)

theorem throughFirst_twice : ¬ ∀ d acts s, (dispatch d).run acts = some s → Complete d s →
    ExactlyOnce d s := by
  intro h
  obtain ⟨s, hs, hp⟩ := (Option.any_eq_true (fun s =>
      decide (Complete twoOfThree s) && s.calls 0 = 2) _).mp
    (by decide +kernel : ((dispatch twoOfThree).run throughFirst).any (fun s =>
      decide (Complete twoOfThree s) && s.calls 0 = 2) = true)
  simp only [Bool.and_eq_true, decide_eq_true_eq] at hp
  have hone := (h twoOfThree throughFirst s hs hp.1).1 0
  rw [hp.2] at hone
  split at hone <;> cases hone

end Dispatch

end DevAdapter.Broker
