import DevAdapter.DmaHandler
import DevAdapter.Server.Receive

/-!
# The state of the device adapter

The threads of the program and what they share: the main thread in
`eventLoop`, the server thread in `runServer`, one receive thread for each
accepted client, the timer thread, and the threads that call `sendToPc`. A
receive record is named by the number of clients accepted before it, a
`pthread_t` by the record or the role of its thread. A `…Pc` says which
statement its thread executes next; what such a statement still needs of the
thread's locals is its argument.

`Origin` and the fields marked as a trace are read by no statement. They say
what happened, for the properties.
-/

namespace DevAdapter

inductive Waiting
  | disconnected
  | startup
  | connected
  deriving DecidableEq, Repr

/-- What a message stems from: a client's connection or one sleep of the timer. -/
inductive Origin
  | client (r : Nat)
  | tick (n : Nat)
  deriving DecidableEq, Repr

def Origin.sleep : Origin → Nat
  | .client _ => 0
  | .tick n => n

structure Msg where
  type : MsgType
  number : Int
  origin : Origin
  deriving DecidableEq, Repr

/-- The threads that call `postMsgQueue`. -/
inductive Poster
  | server
  | receive (r : Nat)
  | timer
  deriving DecidableEq, Repr

inductive PostPc
  | idle
  | want (type : MsgType) (origin : Origin)
  | msgsnd (m : Msg)
  | unlock
  deriving DecidableEq, Repr

/-- The threads that call `sendToPc`: the main thread, and any number of
threads of the broker and DMA libraries. -/
inductive Sender
  | main
  | callback (t : Nat)
  deriving DecidableEq, Repr

/-- Where a thread is in `process_exception` and `sendToPc`; at `exception` a
`cb_thread` has been created and calls `process_exception` next. -/
inductive SendPc
  | idle
  | exception (buf : List UInt8)
  | enter (buf : List UInt8)
  | check (r : Nat) (buf : List UInt8)
  | lock (r : Nat) (buf : List UInt8)
  | test (r : Nat) (buf : List UInt8)
  | send (r : Nat) (buf : List UInt8)
  | fail (r : Nat)
  | unlock
  deriving DecidableEq, Repr

/-- Where a receive thread is; `absent` before its record is created. -/
inductive ReceivePc
  | absent
  | test
  | recv
  | loop (l : Loop)
  | closing
  | exited

inductive ServerPc
  | start
  | accepting
  | created (r : Nat)
  | installed (r : Nat)
  | connected (r : Nat)
  | exited
  deriving DecidableEq, Repr

/-- `n` numbers the sleep whose `MSG_TIMEOUT` the thread is about. -/
inductive TimerPc
  | lock
  | test
  | park
  | waiting (signalled : Bool)
  | unlock
  | sleep
  | sleeping (n : Nat)
  | testClose (n : Nat)
  | clearRunning (n : Nat)
  | postStop (n : Nat)
  deriving DecidableEq, Repr

inductive MainPc
  | idle
  | handle (m : Msg)
  | register
  | testTimer
  | startClose
  | startRunning
  | startSignal
  | startDone
  | enableSend
  | stopTimer
  | clearTimer
  | checkConnected (n : Nat)
  | resetConnected (n : Nat)
  | closeStreams (n : Nat)
  | setDisconnected (n : Nat)
  | stopReceive (n : Nat)
  | join (r : Nat)
  | free (r : Nat)
  | clearReceive (r : Nat)
  | reInit
  | reInitUnlock
  | inquiry (gReceive : Option Nat)
  | sending
  deriving DecidableEq, Repr

/-- One call of `send`: `ret` is `none` for an error. -/
structure Sent where
  buf : List UInt8
  ret : Option Nat
  deriving DecidableEq, Repr

/-- `struct g_receive_para`, with the place of its thread. -/
structure ReceivePara where
  receiveRunning : Bool
  -- `connfd` is a descriptor that is not closed
  isOpen : Bool
  connected : Bool
  buf : ReceiveBuf
  pc : ReceivePc
  -- trace: the calls of `send` on the connection
  sent : List Sent
  -- trace: it was stored in `g_server->g_receive`
  installed : Bool
  -- trace: how often `freeReceThread` stopped it
  stops : Nat
  -- trace: how many sleeps the timer had begun when the client's
  -- `MSG_ACCEPT_NEW_CLIENT` was first handled
  acceptedIn : Option Nat
  -- trace: the same for the client's last handled heart beat
  beatIn : Option Nat

def ReceivePara.absent : ReceivePara where
  receiveRunning := false
  isOpen := false
  connected := false
  buf := ⟨0, fun _ => 0⟩
  pc := .absent
  sent := []
  installed := false
  stops := 0
  acceptedIn := none
  beatIn := none

/-- What `InitReceThread` fills in; what `malloc` leaves in `recvbuf` is taken
as zero, and no byte of it is read before it is written. -/
def ReceivePara.init : ReceivePara :=
  { ReceivePara.absent with receiveRunning := true, isOpen := true, pc := .test }

structure System where
  -- `g_server`
  waiting : Waiting
  gReceive : Option Nat
  hasTimer : Bool
  enableCallback : Bool
  sendEnable : Bool
  sendMutex : Option Sender
  -- the receive records; the first `accepted` exist
  recs : Nat → ReceivePara
  accepted : Nat
  -- `g_msg_queue`
  queue : List Msg
  queueMutex : Option Poster
  seqId : Int
  -- `g_timer`
  running : Bool
  closeState : Bool
  timerMutex : Bool
  -- `g_broker` and `g_dma`: what is registered, and what streams
  callback : Bool
  dmaCallback : Bool
  rssiState : Bool
  dma : Dma
  -- the threads
  main : MainPc
  server : ServerPc
  timer : TimerPc
  post : Poster → PostPc
  snd : Sender → SendPc
  -- a `NULL` `g_receive` was dereferenced
  fault : Bool
  -- trace: the sleeps the timer thread has begun
  sleeps : Nat
  -- trace: the last RSSI command the rf device acknowledged switched it on
  rssiOn : Bool

/-- After `InitTimerThread`, `InitServerThread`, `initProcBroker` and
`init_dma_state`. -/
def System.init : System where
  waiting := .startup
  gReceive := none
  hasTimer := false
  enableCallback := false
  sendEnable := false
  sendMutex := none
  recs := fun _ => .absent
  accepted := 0
  queue := []
  queueMutex := none
  seqId := 1
  running := false
  closeState := true
  timerMutex := false
  callback := false
  dmaCallback := false
  rssiState := false
  dma := .init
  main := .idle
  server := .start
  timer := .lock
  post := fun _ => .idle
  snd := fun _ => .idle
  fault := false
  sleeps := 0
  rssiOn := false

end DevAdapter
