import DevAdapter.Lib.Machine
import DevAdapter.System.State
import Mathlib.Logic.Function.Basic

/-!
# The steps of the threads

Each thread has a step function that executes the statement its `…Pc` names.
What the statement gets from outside is an argument: the bytes of `recv`, the
result of `send`, the answers of the libraries. It is `none` where the thread
blocks. A step that dereferences a `NULL` `g_receive` sets `fault`, and
nothing runs after it.
-/

namespace DevAdapter

open Function (update)
open Word32 Transition

/-- What the main thread gets from the libraries in one step. -/
structure Answer where
  -- `broker_register_callback` succeeds
  registered : Bool := true
  -- `dma_register_callback` succeeds
  dmaRegistered : Bool := true
  -- the length of the response of `dev_transfer`, if it returns 0
  reply : Option Nat := none
  -- the `"dst"` of the request is `"rf"`
  rf : Bool := false
  -- the `"timer"` of the request is not `"0"`
  timer : Bool := false
  -- the `"dst"` of the request is one whose response is forwarded
  forwarded : Bool := false
  -- the buffer built for `sendToPc`
  frame : List UInt8 := []

/-- `pthread_cond_signal`, lost unless the timer thread waits. -/
def TimerPc.signal : TimerPc → TimerPc
  | .waiting _ => .waiting true
  | pc => pc

namespace System

@[simp] def setRec (s : System) (r : Nat) (g : ReceivePara) : System :=
  { s with recs := update s.recs r g }

@[simp] def setPost (s : System) (p : Poster) (pc : PostPc) : System :=
  { s with post := update s.post p pc }

@[simp] def setSnd (s : System) (x : Sender) (pc : SendPc) : System :=
  { s with snd := update s.snd x pc }

@[simp] def goto (s : System) (pc : MainPc) : System := { s with main := pc }

-- ---------------------------------------------------------------------------
-- The message queue
-- ---------------------------------------------------------------------------

/-- `postMsgQueue`. The mutex is held while `msgsnd` waits for room, `K`
messages being what the queue holds. -/
def postStep (K : Nat) (s : System) (p : Poster) : Option System :=
  match s.post p with
  | .idle => none
  | .want type origin =>
    if s.queueMutex = none then
      -- `data->msg_number = g_msg_queue->seq_id`, under the mutex
      some { s with
        queueMutex := some p
        seqId := wrap32 (s.seqId + 1)
        post := update s.post p (.msgsnd ⟨type, s.seqId, origin⟩) }
    else none
  | .msgsnd m =>
    -- a full queue blocks the thread here, with the mutex
    if s.queue.length < K then
      some { s with queue := s.queue ++ [m], post := update s.post p .unlock }
    else none
  | .unlock => some { s with queueMutex := none, post := update s.post p .idle }

-- ---------------------------------------------------------------------------
-- The server thread
-- ---------------------------------------------------------------------------

/-- `runServer`; `listening` says whether `socket`, `bind` and `listen` work. -/
def serverStep (s : System) (listening : Bool) : Option System :=
  match s.server with
  | .start =>
    if listening then some { s with waiting := .startup, server := .accepting }
    else some { s with waiting := .disconnected, server := .exited }
  | .accepting =>
    -- `accept` and `InitReceThread`, once the last `postMsg` has returned
    if s.post .server = .idle then
      some { s with
        recs := update s.recs s.accepted .init
        accepted := s.accepted + 1
        server := .created s.accepted }
    else none
  | .created r =>
    -- whatever `g_receive` was is overwritten
    some { s with
      recs := update s.recs r { s.recs r with installed := true }
      gReceive := some r
      server := .installed r }
  | .installed r => some { s with waiting := .connected, server := .connected r }
  | .connected r =>
    some { s with
      post := update s.post .server (.want .acceptNewClient (.client r))
      server := .accepting }
  | .exited => none

-- ---------------------------------------------------------------------------
-- Receive threads
-- ---------------------------------------------------------------------------

/-- The end of a pass of the loop of `receive` that called `processMessage`;
`call` is what that posts. -/
def dispatched (s : System) (r : Nat) (next : Loop)
    (call : Option (MsgType × Option (OffsetMemory.Mem UInt8 × Int) × Int)) : System :=
  let g := s.recs r
  let g' :=
    if next.totalByte = 0 then { g with buf := ⟨0, g.buf.recvbuf⟩, pc := .test }
    else { g with pc := .loop next }
  match call with
  | some (type, _) => (s.setRec r g').setPost (.receive r) (.want type (.client r))
  | none => s.setRec r g'

/-- One pass of the loop of `receive` on a window `l`. -/
def loopStep (s : System) (r : Nat) (l : Loop) : Iteration → System
  | .save => s.setRec r { s.recs r with buf := (s.recs r).buf.save l, pc := .test }
  | .dispatch messageLength next =>
    s.dispatched r next (processMessage (s.recs r).buf.recvbuf l.pStart messageLength)

/-- `receive_thread` and `receive`; `chunk` is what `recv` returns, empty for
a result `n <= 0`. -/
def receiveStep (s : System) (r : Nat) (chunk : List UInt8) : Option System :=
  let g := s.recs r
  if s.post (.receive r) = .idle then
    match g.pc with
    | .absent => none
    | .test =>
      if g.receiveRunning then some (s.setRec r { g with pc := .recv })
      -- out of its loop the thread posts one last message
      else some ((s.setRec r { g with pc := .closing }).setPost (.receive r)
        (.want .receiveThreadClosed (.client r)))
    | .recv =>
      if chunk = [] then some (s.setRec r { g with pc := .test })
      else if chunk.length ≤ bufferSize then
        some (s.setRec r { g with buf := g.buf.recv chunk, pc := .loop (g.buf.enter chunk) })
      else none
    | .loop l => some (s.loopStep r l (iterate g.buf.recvbuf l))
    | .closing => some (s.setRec r { g with pc := .exited })
    | .exited => none
  else none

-- ---------------------------------------------------------------------------
-- The timer thread
-- ---------------------------------------------------------------------------

def timerStep (s : System) : Option System :=
  if s.post .timer = .idle then
    match s.timer with
    | .lock => if s.timerMutex then none else some { s with timerMutex := true, timer := .test }
    | .test => some { s with timer := if s.running then .unlock else .park }
    -- `pthread_cond_wait` unlocks the mutex, also one that the thread does not hold
    | .park => some { s with timerMutex := false, timer := .waiting false }
    | .waiting signalled =>
      if signalled && !s.timerMutex then some { s with timerMutex := true, timer := .test }
      else none
    | .unlock => some { s with timerMutex := false, timer := .sleep }
    | .sleep => some { s with sleeps := s.sleeps + 1, timer := .sleeping (s.sleeps + 1) }
    | .sleeping n =>
      some { s with
        post := update s.post .timer (.want .timeout (.tick n)), timer := .testClose n }
    | .testClose n => some { s with timer := if s.closeState then .clearRunning n else .sleep }
    | .clearRunning n => some { s with running := false, timer := .postStop n }
    | .postStop n =>
      -- back to the test of `running`, without the mutex
      some { s with post := update s.post .timer (.want .stopTimer (.tick n)), timer := .test }
  else none

/-- `pthread_cond_wait` may return without a signal. -/
def spuriousStep (s : System) : Option System :=
  match s.timer with
  | .waiting _ => some { s with timer := .waiting true }
  | _ => none

-- ---------------------------------------------------------------------------
-- The main thread
-- ---------------------------------------------------------------------------

/-- `rssi_state_change` for a request to the rf device or to another one, whose
`"timer"` is on or off. The program stores what any device has answered. -/
@[simp] def rssiStateChange (s : System) (reply : Option Nat) (rf timer : Bool) : System :=
  { s with
    rssiOn := if reply.isSome ∧ rf then timer else s.rssiOn
    rssiState := if reply.any (0 < ·) ∧ s.gReceive ≠ none then timer else s.rssiState }

/-- `close_rssi`, which sends nothing unless RSSI is on, and to the rf device then. -/
@[simp] def closeRssi (s : System) (reply : Option Nat) : System :=
  s.rssiStateChange (if s.rssiState then reply else none) true false

@[simp] def crash (s : System) : System := { s with fault := true }

@[simp] def traceAccepted (s : System) (origin : Origin) : System :=
  { s with recs := fun r =>
      if origin = .client r then
        { s.recs r with acceptedIn := (s.recs r).acceptedIn <|> some s.sleeps }
      else s.recs r }

@[simp] def traceBeat (s : System) (origin : Origin) : System :=
  { s with recs := fun r =>
      if origin = .client r then { s.recs r with beatIn := some s.sleeps } else s.recs r }

theorem traceAccepted_keeps (p : ReceivePara → β) (hp : ∀ g a, p { g with acceptedIn := a } = p g)
    (s : System) (origin : Origin) (r : Nat) :
    p ((s.traceAccepted origin).recs r) = p (s.recs r) := by
  simp only [traceAccepted]
  split
  · exact hp _ _
  · rfl

theorem heartBeat_keeps (p : ReceivePara → β)
    (hp : ∀ g connected beatIn, p { g with connected := connected, beatIn := beatIn } = p g)
    (s : System) (r : Nat) (origin : Origin) (q : Nat) :
    p (((s.setRec r { s.recs r with connected := true }).traceBeat origin).recs q) =
      p (s.recs q) := by
  have hconn : p (update s.recs r { s.recs r with connected := true } q) = p (s.recs q) :=
    map_update p q (hp (s.recs r) true (s.recs r).beatIn)
  simp only [traceBeat, setRec]
  split
  · exact (hp (update s.recs r _ q) (update s.recs r _ q).connected _).trans hconn
  · exact hconn

/-- The `switch` of `eventLoop`, up to the first statement that another thread
can tell from the one before. -/
def dispatch (s : System) (m : Msg) (a : Answer) : System :=
  match m.type with
  | .acceptNewClient =>
    (s.traceAccepted m.origin).goto (if s.enableCallback then .testTimer else .register)
  | .rssiStateChange => (s.rssiStateChange a.reply a.rf a.timer).goto .idle
  | .inquiryState => s.goto (.inquiry s.gReceive)
  | .rfMfState => (s.setSnd .main (.enter a.frame)).goto .sending
  | .timeout =>
    s.goto (if s.waiting = .disconnected then .idle else .checkConnected m.origin.sleep)
  | .stopTimer => s.goto .idle
  | .receiveThreadClosed => s.goto (if s.hasTimer then .stopTimer else .idle)
  | .receivedHeartBeat =>
    -- no test of `g_receive`
    match s.gReceive with
    | none => s.crash
    | some r =>
      ((s.setRec r { s.recs r with connected := true }).traceBeat m.origin).goto .idle
  | .stopCsi => { s with dma := gwStopcsi s.dma, main := .idle }
  | .startCsi => { s with dma := gwStartcsi s.dma, main := .idle }
  | .startConstellation => { s with dma := gwStartConstellation s.dma, main := .idle }
  | .stopConstellation => { s with dma := gwStopConstellation s.dma, main := .idle }

def mainStep (s : System) (a : Answer) : Option System :=
  match s.main with
  | .idle =>
    match s.queue with
    | [] => none
    | m :: queue => some { s with queue := queue, main := .handle m }
  | .handle m => some (s.dispatch m a)
  -- `MSG_ACCEPT_NEW_CLIENT`, with `Start_Timer`
  | .register =>
    some { s with
      callback := s.callback || a.registered
      dmaCallback := s.dmaCallback || a.dmaRegistered
      enableCallback := true
      main := .testTimer }
  | .testTimer => some (s.goto (if s.hasTimer then .enableSend else .startClose))
  | .startClose => some { s with closeState := false, main := .startRunning }
  | .startRunning => some { s with running := true, main := .startSignal }
  | .startSignal =>
    -- a timer thread that sleeps misses the signal and goes on by `closeState`
    some { s with timer := s.timer.signal, main := .startDone }
  | .startDone => some { s with hasTimer := true, main := .enableSend }
  | .enableSend => some { s with sendEnable := true, main := .idle }
  -- `MSG_RECEIVE_THREAD_CLOSED`, with `stop_Timer`
  | .stopTimer => some { s with closeState := true, main := .clearTimer }
  | .clearTimer => some { s with hasTimer := false, main := .idle }
  -- `MSG_TIMEOUT`
  | .checkConnected n =>
    match s.gReceive with
    | none => some s.crash
    | some r =>
      some (s.goto (if (s.recs r).connected then .resetConnected n else .closeStreams n))
  | .resetConnected _ =>
    match s.gReceive with
    | none => some s.crash
    | some r => some ((s.setRec r { s.recs r with connected := false }).goto .idle)
  | .closeStreams n =>
    some (({ s with dma := gwStopConstellation (gwStopcsi s.dma) }.closeRssi a.reply).goto
      (.setDisconnected n))
  -- `freeReceThread`
  | .setDisconnected n => some { s with waiting := .disconnected, main := .stopReceive n }
  | .stopReceive _ =>
    match s.gReceive with
    | none => some s.crash
    | some r =>
      let g := s.recs r
      some ((s.setRec r { g with receiveRunning := false, stops := g.stops + 1 }).goto (.join r))
  | .join r =>
    match (s.recs r).pc with
    | .exited => some (s.goto (.free r))
    | _ => none
  | .free r =>
    let g := s.recs r
    some ((s.setRec r { g with
      isOpen := false, connected := false, buf := { g.buf with gMoreData := 0 } }).goto
      (.clearReceive r))
  | .clearReceive _ => some { s with gReceive := none, main := .reInit }
  -- `mutex_reInit`: `pthread_mutex_trylock`, and the unlock in both branches
  | .reInit =>
    some { s with
      sendMutex := if s.sendMutex = none then some .main else s.sendMutex
      main := .reInitUnlock }
  | .reInitUnlock => some { s with sendMutex := none, main := .idle }
  -- `inquiry_state_from` after its `dev_transfer`
  | .inquiry gReceive =>
    if a.reply.any (0 < ·) ∧ a.forwarded ∧ gReceive ≠ none then
      some ((s.setSnd .main (.enter a.frame)).goto .sending)
    else some (s.goto .idle)
  | .sending => if s.snd .main = .idle then some (s.goto .idle) else none

-- ---------------------------------------------------------------------------
-- Senders
-- ---------------------------------------------------------------------------

/-- `sendToPc`, and before it `process_exception` in a broker thread. -/
def sendStep (s : System) (x : Sender) (ret : Option Nat) : Option System :=
  match s.snd x with
  | .idle => none
  | .exception buf =>
    some (s.setSnd x (if s.waiting = .disconnected then .idle else .enter buf))
  | .enter buf =>
    -- `send_cnt` is counted before the test of `g_receive`
    match s.gReceive with
    | none => some s.crash
    | some r => some (s.setSnd x (.check r buf))
  | .check r buf =>
    some (s.setSnd x (if s.waiting = .disconnected then .idle else .lock r buf))
  | .lock r buf =>
    if s.sendMutex = none then
      some { s with sendMutex := some x, snd := update s.snd x (.test r buf) }
    else none
  | .test r buf => some (s.setSnd x (if s.sendEnable then .send r buf else .unlock))
  | .send r buf =>
    let g := s.recs r
    if g.isOpen then
      if ret.all (· ≤ buf.length) then
        some ((s.setRec r { g with sent := g.sent ++ [⟨buf, ret⟩] }).setSnd x
          (if ret = some buf.length then .unlock else .fail r))
      else none
    -- the main thread has closed `connfd` meanwhile
    else some (s.setSnd x (.fail r))
  | .fail _ => some { s with sendEnable := false, snd := update s.snd x .unlock }
  | .unlock => some { s with sendMutex := none, snd := update s.snd x .idle }

/-- A library calls back: `message_callback` finds `process_exception` in
`cb_list` and creates a `cb_thread` for it, for a topic it forwards, or the DMA
driver calls `IQ_register_callback`, for a buffer it sends. `buf` is what `send`
is handed in the end; a frame in `shareInfo->buf_` need not be the caller's own
by then, see `DevAdapter.Rssi`. -/
def callbackStep (s : System) (t : Nat) (broker : Bool) (buf : List UInt8) : Option System :=
  if s.snd (.callback t) = .idle ∧ (if broker then s.callback else s.dmaCallback) then
    some (s.setSnd (.callback t) (if broker then .exception buf else .enter buf))
  else none

end System

/-- Which thread takes a step, with what it gets from outside. -/
inductive Act
  | server (listening : Bool)
  | receive (r : Nat) (chunk : List UInt8)
  | post (p : Poster)
  | timer
  | spurious
  | main (a : Answer)
  | send (x : Sender) (ret : Option Nat)
  | callback (t : Nat) (broker : Bool) (buf : List UInt8)
  -- the MQTT connection ends and `clean_global` empties `cb_list`
  | disconnect

def System.step (K : Nat) (s : System) (act : Act) : Option System :=
  if s.fault then none
  else match act with
    | .server listening => s.serverStep listening
    | .receive r chunk => s.receiveStep r chunk
    | .post p => s.postStep K p
    | .timer => s.timerStep
    | .spurious => s.spuriousStep
    | .main a => s.mainStep a
    | .send x ret => s.sendStep x ret
    | .callback t broker buf => s.callbackStep t broker buf
    | .disconnect => some { s with callback := false }

/-- The program with a queue that holds `K` messages. -/
def adapter (K : Nat) : Machine System Act := ⟨System.init, System.step K⟩

-- ---------------------------------------------------------------------------
-- Pieces of runs
-- ---------------------------------------------------------------------------

def posted (p : Poster) : List Act := List.replicate 3 (.post p)

def mains (n : Nat) : List Act := List.replicate n (.main {})

def sends (x : Sender) (ret : Option Nat) (n : Nat) : List Act := List.replicate n (.send x ret)

def boot : List Act := .server true :: List.replicate 3 .timer

/-- A client is accepted, up to its message in the queue. -/
def acceptClient : List Act := List.replicate 4 (.server true) ++ posted .server

/-- The timer thread goes on from its wait or its last test, up to a timeout in the queue. -/
def tick : List Act := List.replicate 5 .timer ++ posted .timer

def beatFrame : List UInt8 := [4, 0, 0, 0, 99, 0, 0, 0]

/-- A heart beat of client `r`, up to its message in the queue. -/
def beat (r : Nat) : List Act :=
  [.receive r [], .receive r beatFrame, .receive r []] ++ posted (.receive r)

def exitReceive (r : Nat) : List Act := .receive r [] :: posted (.receive r) ++ [.receive r []]

end DevAdapter
