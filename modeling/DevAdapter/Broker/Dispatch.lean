import DevAdapter.Lib.Machine
import Mathlib.Logic.Function.Basic

/-!
# Dispatch to the registered callbacks

The second loop of `message_callback` and the `cb_thread` threads it starts,
for one message that no waiter took. The allocation of the `i`-th pass of the
loop is named `i`, and so is its thread. A `…Pc` says which statement is next
and carries the locals it needs.
-/

namespace DevAdapter.Broker

open Function (update)
open Transition

/-- The `struct dev_priv` of an entry of `cb_list`. -/
structure Entry where
  topic : List Char
  recvCallback : Nat
  deriving DecidableEq, Repr

/-- What `message_callback` starts its second loop with; `ret` is not set
before it. -/
structure Delivery where
  -- `mosquitto_topic_matches_sub`, of the library
  matchesSub : List Char → List Char → Bool
  cbList : List Entry
  topic : List Char
  payload : List UInt8
  ret : Int

def Delivery.hears (d : Delivery) (dev : Entry) : Bool := d.matchesSub dev.topic d.topic

/-- Where a `cb_thread` is; `absent` before it is created. -/
inductive WorkerPc
  | absent
  | call
  | free
  | exited
  deriving DecidableEq, Repr

/-- `struct msg_priv`, with the place of its thread. -/
structure MsgPriv where
  buf : Option (List UInt8)
  bufLen : Nat
  fromTopic : List Char
  recvCallback : Nat
  worker : WorkerPc
  deriving DecidableEq, Repr

def MsgPriv.absent : MsgPriv := ⟨none, 0, [], 0, .absent⟩

inductive CallbackPc
  | test (i : Nat)
  | allocMsg (i : Nat) (dev : Entry)
  | allocBuf (i : Nat) (dev : Entry)
  | create (i : Nat) (dev : Entry)
  | check (i : Nat) (dev : Entry)
  | direct (i : Nat) (dev : Entry)
  | returned
  deriving DecidableEq, Repr

/-- A call of the `recv_callback` of the `entry`-th entry. -/
structure Invocation where
  entry : Nat
  recvCallback : Nat
  buf : Option (List UInt8)
  bufLen : Nat
  fromTopic : List Char
  deriving DecidableEq, Repr

structure Dispatch where
  pc : CallbackPc
  msg : Option Nat
  ret : Int
  msgs : Nat → MsgPriv
  -- trace: the calls so far
  invoked : List Invocation

def Dispatch.init (d : Delivery) : Dispatch where
  pc := .test 0
  msg := none
  ret := d.ret
  msgs := fun _ => .absent
  invoked := []

/-- `EAGAIN`, for any error of `pthread_create`. -/
def eagain : Int := 11

def Delivery.msgPriv (d : Delivery) (dev : Entry) : MsgPriv :=
  ⟨some d.payload, d.payload.length, d.topic, dev.recvCallback, .absent⟩

def Delivery.invocation (d : Delivery) (i : Nat) (dev : Entry) : Invocation :=
  ⟨i, dev.recvCallback, some d.payload, d.payload.length, d.topic⟩

namespace Dispatch

/-- The next statement of `message_callback`; `ok` says that an allocation or
`pthread_create` succeeds. -/
def callbackStep (d : Delivery) (s : Dispatch) (ok : Bool) : Option Dispatch :=
  match s.pc with
  | .test i =>
    match d.cbList[i]? with
    | none => some { s with pc := .returned }
    | some dev =>
      some { s with
        pc := if d.hears dev then .allocMsg i dev else .test (i + 1) }
  | .allocMsg i dev =>
    if ok then some { s with msg := some i, pc := .allocBuf i dev }
    else some { s with msg := none, pc := .check i dev }
  | .allocBuf i dev =>
    if ok then some { s with msgs := update s.msgs i (d.msgPriv dev), pc := .create i dev }
    else some { s with msg := none, pc := .check i dev }
  | .create i dev =>
    if ok then
      some { s with
        msgs := update s.msgs i { s.msgs i with worker := .call }
        ret := 0
        pc := .check i dev }
    else some { s with ret := eagain, pc := .check i dev }
  -- `(!msg) || (!msg->buf) || ret`
  | .check i dev =>
    some { s with
      pc := if s.msg.all (fun j => (s.msgs j).buf = none) ∨ s.ret ≠ 0 then .direct i dev
        else .test (i + 1) }
  | .direct i dev => some { s with invoked := s.invoked ++ [d.invocation i dev], pc := .test (i + 1) }
  | .returned => none

def workerStep (s : Dispatch) (i : Nat) : Option Dispatch :=
  let m := s.msgs i
  match m.worker with
  | .call =>
    some { s with
      msgs := update s.msgs i { m with worker := .free }
      invoked := s.invoked ++ [⟨i, m.recvCallback, m.buf, m.bufLen, m.fromTopic⟩] }
  | .free =>
    some { s with msgs := update s.msgs i { m with buf := none, bufLen := 0, worker := .exited } }
  | .absent | .exited => none

end Dispatch

inductive DispatchAct
  | callback (ok : Bool)
  | worker (i : Nat)

def Dispatch.step (d : Delivery) (s : Dispatch) : DispatchAct → Option Dispatch
  | .callback ok => s.callbackStep d ok
  | .worker i => s.workerStep i

def dispatch (d : Delivery) : Machine Dispatch DispatchAct := ⟨.init d, Dispatch.step d⟩

end DevAdapter.Broker
