import DevAdapter.System.Step
import Mathlib.Tactic.SplitIfs

/-!
# What a step can do

One inductive relation for each thread lists the steps it can take: where the
thread was, what let it go on, and the state after. `step_move` reads a step
back as one of them. Steps that differ only in what no invariant speaks about
are one case.
-/

namespace DevAdapter

open Function (update)
open Word32

def ReceivePc.working : ReceivePc → Bool
  | .test | .recv | .loop _ => true
  | .absent | .closing | .exited => false

def MsgType.fromClient : MsgType → Bool
  | .acceptNewClient | .receiveThreadClosed | .timeout | .stopTimer => false
  | _ => true

/-- A type whose handling changes at most what streams. -/
def MsgType.command : MsgType → Bool
  | .startCsi | .stopCsi | .startConstellation | .stopConstellation | .stopTimer => true
  | _ => false

def MainPc.derefs : MainPc → Bool
  | .handle m => m.type = .receivedHeartBeat
  | .checkConnected _ | .resetConnected _ | .stopReceive _ => true
  | _ => false

def SendPc.testsWaiting : SendPc → Bool
  | .exception _ | .check _ _ => true
  | _ => false

theorem processMessage_fromClient {m : OffsetMemory.Mem UInt8} {buf length : Int} {type : MsgType}
    {rest : Option (OffsetMemory.Mem UInt8 × Int) × Int}
    (h : processMessage m buf length = some (type, rest)) : type.fromClient = true := by
  simp only [processMessage] at h
  split_ifs at h <;> cases h <;> rfl

namespace System

-- ---------------------------------------------------------------------------
-- The steps of each thread
-- ---------------------------------------------------------------------------

inductive PostMove (K : Nat) (s : System) (p : Poster) : System → Prop
  | lock {type origin} (hpc : s.post p = .want type origin) (hfree : s.queueMutex = none) :
    PostMove K s p { s with
      queueMutex := some p
      seqId := wrap32 (s.seqId + 1)
      post := update s.post p (.msgsnd ⟨type, s.seqId, origin⟩) }
  | msgsnd {m} (hpc : s.post p = .msgsnd m) (hroom : s.queue.length < K) :
    PostMove K s p { s with queue := s.queue ++ [m], post := update s.post p .unlock }
  | unlock (hpc : s.post p = .unlock) :
    PostMove K s p { s with queueMutex := none, post := update s.post p .idle }

inductive ServerMove (s : System) : System → Prop
  | listen (hpc : s.server = .start) :
    ServerMove s { s with waiting := .startup, server := .accepting }
  | giveUp (hpc : s.server = .start) :
    ServerMove s { s with waiting := .disconnected, server := .exited }
  | create (hpc : s.server = .accepting) (hpost : s.post .server = .idle) :
    ServerMove s { s with
      recs := update s.recs s.accepted .init
      accepted := s.accepted + 1
      server := .created s.accepted }
  | install {r} (hpc : s.server = .created r) :
    ServerMove s { s with
      recs := update s.recs r { s.recs r with installed := true }
      gReceive := some r
      server := .installed r }
  | connect {r} (hpc : s.server = .installed r) :
    ServerMove s { s with waiting := .connected, server := .connected r }
  | post {r} (hpc : s.server = .connected r) :
    ServerMove s { s with
      post := update s.post .server (.want .acceptNewClient (.client r))
      server := .accepting }

inductive ReceiveMove (s : System) (r : Nat) : System → Prop
  | quiet (buf : ReceiveBuf) {pc} (hidle : s.post (.receive r) = .idle)
      (hold : (s.recs r).pc.working = true) (hnew : pc.working = true) :
    ReceiveMove s r (s.setRec r { s.recs r with buf := buf, pc := pc })
  | message (buf : ReceiveBuf) {pc type} (hidle : s.post (.receive r) = .idle)
      (hold : (s.recs r).pc.working = true) (hnew : pc.working = true)
      (htype : type.fromClient = true) :
    ReceiveMove s r ((s.setRec r { s.recs r with buf := buf, pc := pc }).setPost (.receive r)
      (.want type (.client r)))
  | close (hidle : s.post (.receive r) = .idle) (hpc : (s.recs r).pc = .test)
      (hstopped : (s.recs r).receiveRunning = false) :
    ReceiveMove s r ((s.setRec r { s.recs r with pc := .closing }).setPost (.receive r)
      (.want .receiveThreadClosed (.client r)))
  | exit (hidle : s.post (.receive r) = .idle) (hpc : (s.recs r).pc = .closing) :
    ReceiveMove s r (s.setRec r { s.recs r with pc := .exited })

inductive TimerMove (s : System) : System → Prop
  | lock (hidle : s.post .timer = .idle) (hpc : s.timer = .lock) (hfree : s.timerMutex = false) :
    TimerMove s { s with timerMutex := true, timer := .test }
  | goOn (hidle : s.post .timer = .idle) (hpc : s.timer = .test) (hrun : s.running = true) :
    TimerMove s { s with timer := .unlock }
  | stay (hidle : s.post .timer = .idle) (hpc : s.timer = .test) (hrun : s.running = false) :
    TimerMove s { s with timer := .park }
  | park (hidle : s.post .timer = .idle) (hpc : s.timer = .park) :
    TimerMove s { s with timerMutex := false, timer := .waiting false }
  | wake (hidle : s.post .timer = .idle) (hpc : s.timer = .waiting true)
      (hfree : s.timerMutex = false) :
    TimerMove s { s with timerMutex := true, timer := .test }
  | unlock (hidle : s.post .timer = .idle) (hpc : s.timer = .unlock) :
    TimerMove s { s with timerMutex := false, timer := .sleep }
  | sleep (hidle : s.post .timer = .idle) (hpc : s.timer = .sleep) :
    TimerMove s { s with sleeps := s.sleeps + 1, timer := .sleeping (s.sleeps + 1) }
  | timeout {n} (hidle : s.post .timer = .idle) (hpc : s.timer = .sleeping n) :
    TimerMove s { s with
      post := update s.post .timer (.want .timeout (.tick n)), timer := .testClose n }
  | again {n} (hidle : s.post .timer = .idle) (hpc : s.timer = .testClose n)
      (hclose : s.closeState = false) :
    TimerMove s { s with timer := .sleep }
  | close {n} (hidle : s.post .timer = .idle) (hpc : s.timer = .testClose n)
      (hclose : s.closeState = true) :
    TimerMove s { s with timer := .clearRunning n }
  | clearRunning {n} (hidle : s.post .timer = .idle) (hpc : s.timer = .clearRunning n) :
    TimerMove s { s with running := false, timer := .postStop n }
  | postStop {n} (hidle : s.post .timer = .idle) (hpc : s.timer = .postStop n) :
    TimerMove s { s with
      post := update s.post .timer (.want .stopTimer (.tick n)), timer := .test }

inductive MainMove (s : System) : System → Prop
  | take {m queue} (hpc : s.main = .idle) (hqueue : s.queue = m :: queue) :
    MainMove s { s with queue := queue, main := .handle m }
  | acceptFirst {m} (hpc : s.main = .handle m) (htype : m.type = .acceptNewClient)
      (hen : s.enableCallback = false) : MainMove s ((s.traceAccepted m.origin).goto .register)
  | accept {m} (hpc : s.main = .handle m) (htype : m.type = .acceptNewClient)
      (hen : s.enableCallback = true) : MainMove s ((s.traceAccepted m.origin).goto .testTimer)
  | rssi {m} (reply rf timer) (hpc : s.main = .handle m) (htype : m.type = .rssiStateChange) :
    MainMove s ((s.rssiStateChange reply rf timer).goto .idle)
  | inquiry {m} (hpc : s.main = .handle m) (htype : m.type = .inquiryState) :
    MainMove s (s.goto (.inquiry s.gReceive))
  | rfMf {m} (frame) (hpc : s.main = .handle m) (htype : m.type = .rfMfState) :
    MainMove s ((s.setSnd .main (.enter frame)).goto .sending)
  | timeoutIgnored {m} (hpc : s.main = .handle m) (htype : m.type = .timeout)
      (hw : s.waiting = .disconnected) : MainMove s (s.goto .idle)
  | timeout {m} (hpc : s.main = .handle m) (htype : m.type = .timeout)
      (hw : s.waiting ≠ .disconnected) :
    MainMove s (s.goto (.checkConnected m.origin.sleep))
  | closed {m} (hpc : s.main = .handle m) (htype : m.type = .receiveThreadClosed)
      (htimer : s.hasTimer = true) : MainMove s (s.goto .stopTimer)
  | closedIgnored {m} (hpc : s.main = .handle m) (htype : m.type = .receiveThreadClosed)
      (htimer : s.hasTimer = false) : MainMove s (s.goto .idle)
  | heartBeat {m r} (hpc : s.main = .handle m) (htype : m.type = .receivedHeartBeat)
      (hg : s.gReceive = some r) :
    MainMove s
      (((s.setRec r { s.recs r with connected := true }).traceBeat m.origin).goto .idle)
  | command {m} (dma : Dma) (hpc : s.main = .handle m) (htype : m.type.command = true) :
    MainMove s { s with dma := dma, main := .idle }
  | register (callback dmaCallback : Bool) (hpc : s.main = .register) :
    MainMove s { s with
      callback := callback, dmaCallback := dmaCallback, enableCallback := true,
      main := .testTimer }
  | armed (hpc : s.main = .testTimer) (htimer : s.hasTimer = true) :
    MainMove s (s.goto .enableSend)
  | unarmed (hpc : s.main = .testTimer) (htimer : s.hasTimer = false) :
    MainMove s (s.goto .startClose)
  | startClose (hpc : s.main = .startClose) :
    MainMove s { s with closeState := false, main := .startRunning }
  | startRunning (hpc : s.main = .startRunning) :
    MainMove s { s with running := true, main := .startSignal }
  | startSignal (hpc : s.main = .startSignal) :
    MainMove s { s with timer := s.timer.signal, main := .startDone }
  | startDone (hpc : s.main = .startDone) :
    MainMove s { s with hasTimer := true, main := .enableSend }
  | enableSend (hpc : s.main = .enableSend) :
    MainMove s { s with sendEnable := true, main := .idle }
  | stopTimer (hpc : s.main = .stopTimer) :
    MainMove s { s with closeState := true, main := .clearTimer }
  | clearTimer (hpc : s.main = .clearTimer) :
    MainMove s { s with hasTimer := false, main := .idle }
  | seen {n r} (hpc : s.main = .checkConnected n) (hg : s.gReceive = some r)
      (hc : (s.recs r).connected = true) : MainMove s (s.goto (.resetConnected n))
  | missed {n r} (hpc : s.main = .checkConnected n) (hg : s.gReceive = some r)
      (hc : (s.recs r).connected = false) : MainMove s (s.goto (.closeStreams n))
  | reset {n r} (hpc : s.main = .resetConnected n) (hg : s.gReceive = some r) :
    MainMove s ((s.setRec r { s.recs r with connected := false }).goto .idle)
  | closeStreams {n} (reply) (dma : Dma) (hpc : s.main = .closeStreams n) :
    MainMove s (({ s with dma := dma }.closeRssi reply).goto (.setDisconnected n))
  | setDisconnected {n} (hpc : s.main = .setDisconnected n) :
    MainMove s { s with waiting := .disconnected, main := .stopReceive n }
  | stop {n r} (hpc : s.main = .stopReceive n) (hg : s.gReceive = some r) :
    MainMove s ((s.setRec r { s.recs r with
      receiveRunning := false, stops := (s.recs r).stops + 1 }).goto (.join r))
  | join {r} (hpc : s.main = .join r) (hexit : (s.recs r).pc = .exited) :
    MainMove s (s.goto (.free r))
  | free {r} (hpc : s.main = .free r) :
    MainMove s ((s.setRec r { s.recs r with
      isOpen := false, connected := false, buf := { (s.recs r).buf with gMoreData := 0 } }).goto
      (.clearReceive r))
  | clear {r} (hpc : s.main = .clearReceive r) :
    MainMove s { s with gReceive := none, main := .reInit }
  | tryLock (hpc : s.main = .reInit) (hfree : s.sendMutex = none) :
    MainMove s { s with sendMutex := some .main, main := .reInitUnlock }
  | busy (hpc : s.main = .reInit) (hheld : s.sendMutex ≠ none) :
    MainMove s (s.goto .reInitUnlock)
  | reInit (hpc : s.main = .reInitUnlock) :
    MainMove s { s with sendMutex := none, main := .idle }
  | inquirySend {r} (frame) (hpc : s.main = .inquiry (some r)) :
    MainMove s ((s.setSnd .main (.enter frame)).goto .sending)
  | inquiryEnd {g} (hpc : s.main = .inquiry g) : MainMove s (s.goto .idle)
  | sent (hpc : s.main = .sending) (hidle : s.snd .main = .idle) :
    MainMove s (s.goto .idle)
  | crash (hpc : s.main.derefs = true) (hg : s.gReceive = none) : MainMove s s.crash

inductive SendMove (s : System) (x : Sender) (ret : Option Nat) : System → Prop
  | refuse {pc} (hpc : s.snd x = pc) (hwaits : pc.testsWaiting = true)
      (hw : s.waiting = .disconnected) : SendMove s x ret (s.setSnd x .idle)
  | exception {buf} (hpc : s.snd x = .exception buf) (hw : s.waiting ≠ .disconnected) :
    SendMove s x ret (s.setSnd x (.enter buf))
  | enter {r buf} (hpc : s.snd x = .enter buf) (hg : s.gReceive = some r) :
    SendMove s x ret (s.setSnd x (.check r buf))
  | check {r buf} (hpc : s.snd x = .check r buf) (hw : s.waiting ≠ .disconnected) :
    SendMove s x ret (s.setSnd x (.lock r buf))
  | lock {r buf} (hpc : s.snd x = .lock r buf) (hfree : s.sendMutex = none) :
    SendMove s x ret { s with sendMutex := some x, snd := update s.snd x (.test r buf) }
  | enabled {r buf} (hpc : s.snd x = .test r buf) (hen : s.sendEnable = true) :
    SendMove s x ret (s.setSnd x (.send r buf))
  | disabled {r buf} (hpc : s.snd x = .test r buf) (hen : s.sendEnable = false) :
    SendMove s x ret (s.setSnd x .unlock)
  | full {r buf} (hpc : s.snd x = .send r buf) (hopen : (s.recs r).isOpen = true)
      (hfull : ret = some buf.length) : SendMove s x ret ((s.setRec r { s.recs r with
      sent := (s.recs r).sent ++ [⟨buf, some buf.length⟩] }).setSnd x .unlock)
  | short {r buf} (hpc : s.snd x = .send r buf) (hopen : (s.recs r).isOpen = true)
      (hret : ret.all (· ≤ buf.length) = true) (hshort : ret ≠ some buf.length) :
    SendMove s x ret ((s.setRec r { s.recs r with
      sent := (s.recs r).sent ++ [⟨buf, ret⟩] }).setSnd x (.fail r))
  | closed {r buf} (hpc : s.snd x = .send r buf) (hclosed : (s.recs r).isOpen = false) :
    SendMove s x ret (s.setSnd x (.fail r))
  | fail {r} (hpc : s.snd x = .fail r) :
    SendMove s x ret { s with sendEnable := false, snd := update s.snd x .unlock }
  | unlock (hpc : s.snd x = .unlock) :
    SendMove s x ret { s with sendMutex := none, snd := update s.snd x .idle }
  | crash {buf} (hpc : s.snd x = .enter buf) (hg : s.gReceive = none) : SendMove s x ret s.crash

/-- A step of the program; nothing runs after a fault. -/
inductive Move (K : Nat) (s : System) : Act → System → Prop
  | post {p s'} (h : PostMove K s p s') : Move K s (.post p) s'
  | server {listening s'} (h : ServerMove s s') : Move K s (.server listening) s'
  | receive {r chunk s'} (h : ReceiveMove s r s') : Move K s (.receive r chunk) s'
  | timer {s'} (h : TimerMove s s') : Move K s .timer s'
  | spurious {signalled} (hpc : s.timer = .waiting signalled) :
    Move K s .spurious { s with timer := .waiting true }
  | main {a s'} (h : MainMove s s') : Move K s (.main a) s'
  | send {x ret s'} (h : SendMove s x ret s') : Move K s (.send x ret) s'
  | broker {t} (buf) (hidle : s.snd (.callback t) = .idle) (hreg : s.callback = true) :
    Move K s (.callback t true buf) (s.setSnd (.callback t) (.exception buf))
  | dma {t} (buf) (hidle : s.snd (.callback t) = .idle) (hreg : s.dmaCallback = true) :
    Move K s (.callback t false buf) (s.setSnd (.callback t) (.enter buf))
  | disconnect : Move K s .disconnect { s with callback := false }

-- ---------------------------------------------------------------------------
-- Reading steps back
-- ---------------------------------------------------------------------------

variable {s s' : System}

theorem postStep_move (h : postStep K s p = some s') : PostMove K s p s' := by
  cases hpc : s.post p with
  | idle => simp [postStep, hpc] at h
  | want type origin =>
    simp only [postStep, hpc] at h
    split_ifs at h with hfree
    cases h
    exact .lock hpc hfree
  | msgsnd m =>
    simp only [postStep, hpc] at h
    split_ifs at h with hroom
    cases h
    exact .msgsnd hpc hroom
  | unlock =>
    simp only [postStep, hpc] at h
    cases h
    exact .unlock hpc

theorem serverStep_move (h : serverStep s listening = some s') : ServerMove s s' := by
  cases hpc : s.server with
  | start =>
    simp only [serverStep, hpc] at h
    split_ifs at h <;> cases h
    · exact .listen hpc
    · exact .giveUp hpc
  | accepting =>
    simp only [serverStep, hpc] at h
    split_ifs at h with hpost
    cases h
    exact .create hpc hpost
  | created r =>
    simp only [serverStep, hpc] at h
    cases h
    exact .install hpc
  | installed r =>
    simp only [serverStep, hpc] at h
    cases h
    exact .connect hpc
  | connected r =>
    simp only [serverStep, hpc] at h
    cases h
    exact .post hpc
  | exited => simp [serverStep, hpc] at h

theorem dispatched_move {next : Loop}
    {call : Option (MsgType × Option (OffsetMemory.Mem UInt8 × Int) × Int)}
    (hidle : s.post (.receive r) = .idle) (hold : (s.recs r).pc.working = true)
    (hcall : ∀ type rest, call = some (type, rest) → type.fromClient = true) :
    ReceiveMove s r (s.dispatched r next call) := by
  unfold dispatched
  cases call with
  | none => split_ifs <;> exact .quiet _ hidle hold rfl
  | some call => split_ifs <;> exact .message _ hidle hold rfl (hcall _ _ rfl)

theorem loopStep_move (l : Loop) (iteration : Iteration) (hidle : s.post (.receive r) = .idle)
    (hold : (s.recs r).pc.working = true) : ReceiveMove s r (s.loopStep r l iteration) := by
  cases iteration with
  | save => exact .quiet _ hidle hold rfl
  | dispatch messageLength next =>
    rw [loopStep]
    exact dispatched_move hidle hold fun _ _ h => processMessage_fromClient h

theorem receiveStep_move (h : receiveStep s r chunk = some s') : ReceiveMove s r s' := by
  by_cases hidle : s.post (.receive r) = .idle
  · cases hpc : (s.recs r).pc with
    | absent | exited => simp [receiveStep, hpc] at h
    | test =>
      simp only [receiveStep, hidle, hpc, if_true] at h
      split_ifs at h with hrun <;> cases h
      · exact .quiet _ hidle (by rw [hpc]; rfl) rfl
      · exact .close hidle hpc (by simpa using hrun)
    | recv =>
      simp only [receiveStep, hidle, hpc, if_true] at h
      split_ifs at h <;> cases h <;> exact .quiet _ hidle (by rw [hpc]; rfl) rfl
    | loop l =>
      simp only [receiveStep, hidle, hpc, if_true] at h
      cases h
      exact loopStep_move _ _ hidle (by rw [hpc]; rfl)
    | closing =>
      simp only [receiveStep, hidle, hpc, if_true] at h
      cases h
      exact .exit hidle hpc
  · simp only [receiveStep, hidle, if_false, reduceCtorEq] at h

theorem timerStep_move (h : timerStep s = some s') : TimerMove s s' := by
  by_cases hidle : s.post .timer = .idle
  · cases hpc : s.timer with
    | lock =>
      simp only [timerStep, hidle, hpc, if_true] at h
      split_ifs at h with hfree
      cases h
      exact .lock hidle hpc (by simpa using hfree)
    | test =>
      simp only [timerStep, hidle, hpc, if_true] at h
      cases h
      split_ifs with hrun
      · exact .goOn hidle hpc hrun
      · exact .stay hidle hpc (by simpa using hrun)
    | park =>
      simp only [timerStep, hidle, hpc, if_true] at h
      cases h
      exact .park hidle hpc
    | waiting signalled =>
      simp only [timerStep, hidle, hpc, if_true] at h
      split_ifs at h with hwake
      cases h
      simp only [Bool.and_eq_true, Bool.not_eq_true'] at hwake
      exact .wake hidle (by rw [hpc, hwake.1]) hwake.2
    | unlock =>
      simp only [timerStep, hidle, hpc, if_true] at h
      cases h
      exact .unlock hidle hpc
    | sleep =>
      simp only [timerStep, hidle, hpc, if_true] at h
      cases h
      exact .sleep hidle hpc
    | sleeping n =>
      simp only [timerStep, hidle, hpc, if_true] at h
      cases h
      exact .timeout hidle hpc
    | testClose n =>
      simp only [timerStep, hidle, hpc, if_true] at h
      cases h
      split_ifs with hclose
      · exact .close hidle hpc hclose
      · exact .again hidle hpc (by simpa using hclose)
    | clearRunning n =>
      simp only [timerStep, hidle, hpc, if_true] at h
      cases h
      exact .clearRunning hidle hpc
    | postStop n =>
      simp only [timerStep, hidle, hpc, if_true] at h
      cases h
      exact .postStop hidle hpc
  · simp only [timerStep, hidle, if_false, reduceCtorEq] at h

theorem dispatch_move (a : Answer) (hpc : s.main = .handle m) : MainMove s (s.dispatch m a) := by
  cases htype : m.type with
  | acceptNewClient =>
    simp only [dispatch, htype]
    split_ifs with hen
    · exact .accept hpc htype hen
    · exact .acceptFirst hpc htype (by simpa using hen)
  | rssiStateChange =>
    simp only [dispatch, htype]
    exact .rssi _ _ _ hpc htype
  | inquiryState =>
    simp only [dispatch, htype]
    exact .inquiry hpc htype
  | rfMfState =>
    simp only [dispatch, htype]
    exact .rfMf _ hpc htype
  | timeout =>
    simp only [dispatch, htype]
    split_ifs with hw
    · exact .timeoutIgnored hpc htype hw
    · exact .timeout hpc htype hw
  | receiveThreadClosed =>
    simp only [dispatch, htype]
    split_ifs with htimer
    · exact .closed hpc htype htimer
    · exact .closedIgnored hpc htype (by simpa using htimer)
  | receivedHeartBeat =>
    simp only [dispatch, htype]
    split <;> rename_i hg
    · exact .crash (by simp [hpc, MainPc.derefs, htype]) hg
    · exact .heartBeat hpc htype hg
  | stopTimer | startCsi | stopCsi | startConstellation | stopConstellation =>
    simp only [dispatch, htype]
    exact .command _ hpc (by rw [htype]; rfl)

theorem mainStep_move (h : mainStep s a = some s') : MainMove s s' := by
  cases hpc : s.main with
  | idle =>
    simp only [mainStep, hpc] at h
    split at h <;> rename_i hqueue <;> cases h
    exact .take hpc hqueue
  | handle m =>
    simp only [mainStep, hpc] at h
    cases h
    exact dispatch_move a hpc
  | register =>
    simp only [mainStep, hpc] at h
    cases h
    exact .register _ _ hpc
  | testTimer =>
    simp only [mainStep, hpc] at h
    cases h
    split_ifs with htimer
    · exact .armed hpc htimer
    · exact .unarmed hpc (by simpa using htimer)
  | startClose =>
    simp only [mainStep, hpc] at h
    cases h
    exact .startClose hpc
  | startRunning =>
    simp only [mainStep, hpc] at h
    cases h
    exact .startRunning hpc
  | startSignal =>
    simp only [mainStep, hpc] at h
    cases h
    exact .startSignal hpc
  | startDone =>
    simp only [mainStep, hpc] at h
    cases h
    exact .startDone hpc
  | enableSend =>
    simp only [mainStep, hpc] at h
    cases h
    exact .enableSend hpc
  | stopTimer =>
    simp only [mainStep, hpc] at h
    cases h
    exact .stopTimer hpc
  | clearTimer =>
    simp only [mainStep, hpc] at h
    cases h
    exact .clearTimer hpc
  | checkConnected n =>
    simp only [mainStep, hpc] at h
    split at h <;> rename_i hg <;> cases h
    · exact .crash (by rw [hpc]; rfl) hg
    · split_ifs with hc
      · exact .seen hpc hg hc
      · exact .missed hpc hg (by simpa using hc)
  | resetConnected n =>
    simp only [mainStep, hpc] at h
    split at h <;> rename_i hg <;> cases h
    · exact .crash (by rw [hpc]; rfl) hg
    · exact .reset hpc hg
  | closeStreams n =>
    simp only [mainStep, hpc] at h
    cases h
    exact .closeStreams _ _ hpc
  | setDisconnected n =>
    simp only [mainStep, hpc] at h
    cases h
    exact .setDisconnected hpc
  | stopReceive n =>
    simp only [mainStep, hpc] at h
    split at h <;> rename_i hg <;> cases h
    · exact .crash (by rw [hpc]; rfl) hg
    · exact .stop hpc hg
  | join r =>
    simp only [mainStep, hpc] at h
    split at h <;> rename_i hexit <;> cases h
    exact .join hpc hexit
  | free r =>
    simp only [mainStep, hpc] at h
    cases h
    exact .free hpc
  | clearReceive r =>
    simp only [mainStep, hpc] at h
    cases h
    exact .clear hpc
  | reInit =>
    simp only [mainStep, hpc] at h
    cases h
    split_ifs with hfree
    · exact .tryLock hpc hfree
    · exact .busy hpc hfree
  | reInitUnlock =>
    simp only [mainStep, hpc] at h
    cases h
    exact .reInit hpc
  | inquiry g =>
    simp only [mainStep, hpc] at h
    split_ifs at h with hsend <;> cases h
    · obtain ⟨r, rfl⟩ := Option.ne_none_iff_exists'.mp hsend.2.2
      exact .inquirySend _ hpc
    · exact .inquiryEnd hpc
  | sending =>
    simp only [mainStep, hpc] at h
    split_ifs at h with hidle
    cases h
    exact .sent hpc hidle

theorem sendStep_move (h : sendStep s x ret = some s') : SendMove s x ret s' := by
  cases hpc : s.snd x with
  | idle => simp [sendStep, hpc] at h
  | exception buf =>
    simp only [sendStep, hpc] at h
    cases h
    split_ifs with hw
    · exact .refuse hpc rfl hw
    · exact .exception hpc hw
  | enter buf =>
    simp only [sendStep, hpc] at h
    split at h <;> rename_i hg <;> cases h
    · exact .crash hpc hg
    · exact .enter hpc hg
  | check r buf =>
    simp only [sendStep, hpc] at h
    cases h
    split_ifs with hw
    · exact .refuse hpc rfl hw
    · exact .check hpc hw
  | lock r buf =>
    simp only [sendStep, hpc] at h
    split_ifs at h with hfree
    cases h
    exact .lock hpc hfree
  | test r buf =>
    simp only [sendStep, hpc] at h
    cases h
    split_ifs with hen
    · exact .enabled hpc hen
    · exact .disabled hpc (by simpa using hen)
  | send r buf =>
    simp only [sendStep, hpc] at h
    split_ifs at h with hopen hret hfull <;> cases h
    · subst hfull
      exact .full hpc hopen rfl
    · exact .short hpc hopen hret hfull
    · exact .closed hpc (by simpa using hopen)
  | fail r =>
    simp only [sendStep, hpc] at h
    cases h
    exact .fail hpc
  | unlock =>
    simp only [sendStep, hpc] at h
    cases h
    exact .unlock hpc

theorem callbackStep_move (K : Nat) (h : callbackStep s t broker buf = some s') :
    Move K s (.callback t broker buf) s' := by
  unfold callbackStep at h
  by_cases hcall : s.snd (.callback t) = .idle ∧ (if broker then s.callback else s.dmaCallback)
  · rw [if_pos hcall] at h
    cases broker with
    | true =>
      cases h
      exact .broker buf hcall.1 hcall.2
    | false =>
      cases h
      exact .dma buf hcall.1 hcall.2
  · rw [if_neg hcall] at h
    cases h

theorem spuriousStep_move (K : Nat) (h : spuriousStep s = some s') : Move K s .spurious s' := by
  unfold spuriousStep at h
  split at h
  · cases h
    exact .spurious ‹_›
  · cases h

theorem step_move (h : (adapter K).step s act = some s') : s.fault = false ∧ Move K s act s' := by
  by_cases hf : s.fault = true
  · simp [adapter, System.step, hf] at h
  · refine ⟨by simpa using hf, ?_⟩
    simp only [adapter, System.step] at h
    rw [if_neg hf] at h
    cases act with
    | server listening => exact .server (serverStep_move h)
    | receive r chunk => exact .receive (receiveStep_move h)
    | post p => exact .post (postStep_move h)
    | timer => exact .timer (timerStep_move h)
    | spurious => exact spuriousStep_move K h
    | main a => exact .main (mainStep_move h)
    | send x ret => exact .send (sendStep_move h)
    | callback t broker buf => exact callbackStep_move K h
    | disconnect =>
      rw [← Option.some.inj h]
      exact .disconnect

theorem mainStep_of_step (h : (adapter K).step s (.main a) = some s') :
    mainStep s a = some s' := by
  obtain ⟨hfault, -⟩ := step_move h
  simpa [adapter, System.step, hfault] using h

theorem mainStep_handle (a : Answer) (hpc : s.main = .handle m) :
    mainStep s a = some (s.dispatch m a) := by
  rw [mainStep, hpc]

end System

end DevAdapter
