import DevAdapter.Broker.Topics
import DevAdapter.Lib.Machine
import Mathlib.Logic.Function.Basic

/-!
# Requests and responses over the broker

`dev_transfer` links a waiter into `srv_list`, publishes its request and waits
to be woken; `message_callback` hands a response to the first waiter of the
list, since all of them wait for the same wildcard topic. The steps of any
number of calls, of the responders and of the thread that runs
`message_callback` interleave. A call is named by the number of calls before
it, and so is its `struct dev_priv`. A call that fails frees its record, and the
next one may be given the same memory; that matters to `message_callback` when
it has found the record and is about to wake its waiter.
-/

namespace DevAdapter.Broker

open Function (update)
open Transition

structure Message where
  topic : List Char
  payload : List UInt8
  -- trace: the call whose request it answers
  answers : Nat
  deriving DecidableEq, Repr

/-- Where a thread is in `dev_transfer`; `ok` says that `ret` is 0, and `out`
is what a call that returns 0 stores to `out_buf` and `out_buf_len`. -/
inductive TransferPc
  | absent
  | publish
  | ack
  | lock
  | waiting
  | unlink (ok : Bool)
  | returned (out : Option (Option (List UInt8) × Nat))
  deriving DecidableEq, Repr

/-- The `struct dev_priv` of a call of `dev_transfer`, with the call's locals. -/
structure Transfer where
  pc : TransferPc
  dst : List Char
  seq : UInt8
  -- `struct waite_ack_s`
  mid : Nat
  buf : Option (List UInt8)
  bufLen : Nat
  -- trace: the request is published
  requested : Bool
  -- trace: the responses that `message_callback` stored in it
  handed : List Message
  deriving DecidableEq, Repr

/-- What `xzalloc` and `waite_ack_init` leave. -/
def Transfer.init (dst : List Char) (seq : UInt8) : Transfer where
  pc := .publish
  dst := dst
  seq := seq
  mid := 1
  buf := none
  bufLen := 0
  requested := false
  handed := []

def Transfer.absent : Transfer := { Transfer.init [] 0 with pc := .absent }

/-- What of `g_broker` is about requests; the first `called` calls have begun. -/
structure Transfers where
  reqRespSeq : UInt8
  srvList : List Nat
  calls : Nat → Transfer
  called : Nat
  -- the responses that are published and not received yet
  flight : List Message
  -- the waiter that `message_callback` is about to wake
  waking : Option Nat

def Transfers.init : Transfers where
  reqRespSeq := 0
  srvList := []
  calls := fun _ => .absent
  called := 0
  flight := []
  waking := none

namespace Transfers

-- ---------------------------------------------------------------------------
-- Steps of a call
-- ---------------------------------------------------------------------------

@[simp] def setCall (s : Transfers) (c : Nat) (t : Transfer) : Transfers :=
  { s with calls := update s.calls c t }

/-- `dev_transfer` up to `waite_ack_init`, `xzalloc` having succeeded. -/
def call (s : Transfers) (dst : List Char) : Transfers :=
  { s with
    reqRespSeq := s.reqRespSeq + 1
    srvList := s.srvList ++ [s.called]
    calls := update s.calls s.called (.init dst s.reqRespSeq)
    called := s.called + 1 }

/-- The waiter that `message_callback` is about to wake lies in memory that its
call has freed. -/
def Dangling (s : Transfers) : Prop := ∃ c ∈ s.waking, (s.calls c).pc = .returned none

instance (s : Transfers) : Decidable s.Dangling :=
  inferInstanceAs (Decidable (∃ c ∈ s.waking, _))

/-- `dev_transfer` begins; `reused` says that `xzalloc` returns the memory where
`message_callback` is about to wake a waiter. -/
def start (s : Transfers) (dst : List Char) (reused : Bool) : Option Transfers :=
  if reused then
    if s.Dangling then some { s.call dst with waking := some s.called } else none
  else some (s.call dst)

def publish (s : Transfers) (c : Nat) : Option Transfers :=
  match (s.calls c).pc with
  | .publish => some (s.setCall c { s.calls c with pc := .ack, requested := true })
  | _ => none

/-- `__dev_send` returns; `ok` says that it returns 0. -/
def sent (s : Transfers) (c : Nat) (ok : Bool) : Option Transfers :=
  match (s.calls c).pc, ok with
  | .ack, true => some (s.setCall c { s.calls c with pc := .lock })
  | .ack, false | .publish, false => some (s.setCall c { s.calls c with pc := .unlink false })
  | _, _ => none

def lock (s : Transfers) (c : Nat) : Option Transfers :=
  match (s.calls c).pc with
  | .lock =>
    some (s.setCall c { s.calls c with
      pc := if (s.calls c).mid = 0 then .unlink true else .waiting })
  | _ => none

/-- `pthread_cond_timedwait` returns, with 0 also without a signal. -/
def awake (s : Transfers) (c : Nat) (timedOut : Bool) : Option Transfers :=
  match (s.calls c).pc with
  | .waiting => some (s.setCall c { s.calls c with pc := .unlink (!timedOut) })
  | _ => none

def unlink (s : Transfers) (c : Nat) : Option Transfers :=
  match (s.calls c).pc with
  | .unlink ok =>
    let t := s.calls c
    some { s.setCall c { t with pc := .returned (if ok then some (t.buf, t.bufLen) else none) } with
      srvList := s.srvList.erase c }
  | _ => none

-- ---------------------------------------------------------------------------
-- Responses
-- ---------------------------------------------------------------------------

def responseTopic (src : List Char) (t : Transfer) : List Char :=
  respondTopicAck t.dst src (decimal t.seq)

def respond (src : List Char) (s : Transfers) (c : Nat) (payload : List UInt8) :
    Option Transfers :=
  if (s.calls c).requested then
    some { s with flight := s.flight ++ [⟨responseTopic src (s.calls c), payload, c⟩] }
  else none

section

-- `mosquitto_topic_matches_sub`, of the library
variable (matchesSub : List Char → List Char → Bool)

/-- The waiter that the first loop of `message_callback` finds: `res` is the
same for all of them. -/
def found (src : List Char) (s : Transfers) (topic : List Char) : Option Nat :=
  s.srvList.find? fun _ => matchesSub (respondTopic src) topic

/-- `message_callback` up to `wakeup_waite_ack`; `alloc` says that `xmalloc`
succeeds. A message that no waiter takes goes to `cb_list`. -/
def message (src : List Char) (s : Transfers) (i : Nat) (alloc : Bool) : Option Transfers :=
  match s.waking, s.flight[i]? with
  | none, some m =>
    let s' := { s with flight := s.flight.eraseIdx i }
    match s.found matchesSub src m.topic with
    | none => some s'
    | some c =>
      let t := s.calls c
      let t' := { t with
        buf := if alloc then some m.payload else none
        bufLen := if alloc then m.payload.length else t.bufLen
        handed := t.handed ++ [m] }
      some { s'.setCall c t' with waking := some c }
  | _, _ => none

end

def wake (s : Transfers) : Option Transfers :=
  match s.waking with
  | none => none
  | some c =>
    let t := s.calls c
    some { s.setCall c { t with mid := if t.mid = 1 then 0 else t.mid } with waking := none }

end Transfers

inductive TransferAct
  | call (dst : List Char) (reused : Bool)
  | publish (c : Nat)
  | sent (c : Nat) (ok : Bool)
  | lock (c : Nat)
  | awake (c : Nat) (timedOut : Bool)
  | unlink (c : Nat)
  | respond (c : Nat) (payload : List UInt8)
  | message (i : Nat) (alloc : Bool)
  | wake

def Transfers.step (matchesSub : List Char → List Char → Bool) (src : List Char) (s : Transfers) :
    TransferAct → Option Transfers
  | .call dst reused => s.start dst reused
  | .publish c => s.publish c
  | .sent c ok => s.sent c ok
  | .lock c => s.lock c
  | .awake c timedOut => s.awake c timedOut
  | .unlink c => s.unlink c
  | .respond c payload => s.respond src c payload
  | .message i alloc => s.message matchesSub src i alloc
  | .wake => s.wake

def transfers (matchesSub : List Char → List Char → Bool) (src : List Char) :
    Machine Transfers TransferAct :=
  ⟨.init, Transfers.step matchesSub src⟩

end DevAdapter.Broker
