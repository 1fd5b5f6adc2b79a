import DevAdapter.Server.Reassembly
import DevAdapter.System.Posts

/-!
# From the bytes of a client to the main thread

A client sends frames, `recv` returns the bytes in pieces, the receive thread
posts a message for each frame, between the messages of the other threads, and
the main thread takes them. Beside a run is recorded what `recv` returned on
each connection and what the main thread has taken. No command is lost,
doubled or overtaken on the way.
-/

namespace DevAdapter

open Function (update)
open OffsetMemory Word32 Framing Transition

-- ---------------------------------------------------------------------------
-- The command of a frame
-- ---------------------------------------------------------------------------

/-- What `processMessage` posts for a frame, wherever the frame lies. -/
def Frame.command (f : Frame) : Option MsgType :=
  (processMessage (Mem.write (fun _ => 0) 0 f.encode) 0 f.body.length).map Prod.fst

theorem processMessage_type {m m' : Mem UInt8} {buf buf' : Int} (length length' : Int)
    (h : myNtohl m (buf + 4) = myNtohl m' (buf' + 4)) :
    (processMessage m buf length).map Prod.fst = (processMessage m' buf' length').map Prod.fst := by
  simp only [processMessage, h]
  split_ifs <;> rfl

theorem Frame.command_eq {m : Mem UInt8} {p : Int} {f : Frame}
    (hf : m.read p f.encode.length = f.encode) :
    (processMessage m p f.body.length).map Prod.fst = f.command := by
  have hhere := congrArg Message.type (messageAt_frame hf)
  have hzero := congrArg Message.type (messageAt_frame (read_write_self (fun _ => 0) 0 f.encode))
  simp only [messageAt] at hhere hzero
  exact processMessage_type _ _ (hhere.trans hzero.symm)

-- ---------------------------------------------------------------------------
-- One receive thread
-- ---------------------------------------------------------------------------

def ReceivePc.inLoop : ReceivePc → Bool
  | .loop _ => true
  | _ => false

/-- The next statement of the thread is the call of `recv`. -/
def ReceivePc.receives : ReceivePc → Bool
  | .recv => true
  | _ => false

def ReceivePara.reading (g : ReceivePara) : ReceivePc × ReceiveBuf := (g.pc, g.buf)

def ReceivePc.last : ReceivePc → List MsgType
  | .closing | .exited => [.receiveThreadClosed]
  | .absent | .test | .recv | .loop _ => []

/-- How far a thread is with the first `N` bytes of the frames `fs`: `done` are
the frames it is through with. -/
inductive Progress (fs : List Frame) (N : Nat) (pc : ReceivePc) (buf : ReceiveBuf) :
    List Frame → Prop
  | between (hpc : pc.inLoop = false)
      (hbuf : pc.working = true → buf.Holds (tail Frame.encode fs N)) :
    Progress fs N pc buf (whole Frame.encode fs N)
  | within {done : List Frame} {p : Int} {n : Nat} (todo : List Frame) (hpc : pc = .loop ⟨p, n⟩)
      (hpos : 0 < n) (hn : n < 2 ^ 31) (hsmall : ∀ f ∈ todo, f.encode.length < 2 ^ 31)
      (hlen : n ≤ (stream Frame.encode todo).length)
      (hwindow : buf.recvbuf.read p n = (stream Frame.encode todo).take n)
      (hwhole : done ++ whole Frame.encode todo n = whole Frame.encode fs N)
      (htail : tail Frame.encode todo n = tail Frame.encode fs N) :
    Progress fs N pc buf done

/-- What a thread has posted so far, `msgs`, after `recv` returned `bytes`. -/
structure Account (fs : List Frame) (bytes : List UInt8) (pc : ReceivePc) (buf : ReceiveBuf)
    (msgs : List MsgType) : Prop where
  comes : bytes <+: stream Frame.encode fs
  kept : (tail Frame.encode fs bytes.length).length ≤ headroom
  fresh : pc = .absent → bytes = []
  through : ∃ done, Progress fs bytes.length pc buf done ∧
    msgs = done.filterMap Frame.command ++ pc.last

variable {fs : List Frame} {bytes chunk : List UInt8} {pc : ReceivePc} {buf : ReceiveBuf}
  {msgs : List MsgType}

theorem Account.init (fs : List Frame) (buf : ReceiveBuf) : Account fs [] .absent buf [] where
  comes := List.nil_prefix
  kept := by simp [tail_zero]
  fresh _ := rfl
  through := by
    refine ⟨_, .between rfl nofun, ?_⟩
    simp [whole_zero, ReceivePc.last]

theorem Account.between (h : Account fs bytes pc buf msgs) (hpc : pc.inLoop = false) :
    (pc.working = true → buf.Holds (tail Frame.encode fs bytes.length)) ∧
      msgs = (whole Frame.encode fs bytes.length).filterMap Frame.command ++ pc.last := by
  obtain ⟨done, hprogress, hmsgs⟩ := h.through
  cases hprogress with
  | between _ hbuf => exact ⟨hbuf, hmsgs⟩
  | within todo hloop =>
    rw [hloop] at hpc
    cases hpc

theorem Account.goOn (h : Account fs bytes pc buf msgs) (hpc : pc.inLoop = false)
    {pc' : ReceivePc} {buf' : ReceiveBuf} {more : List MsgType} (hpc' : pc'.inLoop = false)
    (habsent : pc' ≠ .absent) (hbuf : pc'.working = true →
      buf'.Holds (tail Frame.encode fs bytes.length))
    (hmore : pc.last ++ more = pc'.last) : Account fs bytes pc' buf' (msgs ++ more) where
  comes := h.comes
  kept := h.kept
  fresh hpc := absurd hpc habsent
  through := by
    refine ⟨_, .between hpc' hbuf, ?_⟩
    rw [(h.between hpc).2, List.append_assoc, hmore]

theorem Account.create (h : Account fs bytes .absent buf msgs) {buf' : ReceiveBuf}
    (hbuf : buf'.gMoreData = 0) : Account fs bytes .test buf' msgs := by
  rw [← List.append_nil msgs]
  refine h.goOn rfl rfl nofun (fun _ => ?_) rfl
  rw [h.fresh rfl, List.length_nil, tail_zero]
  exact ReceiveBuf.holds_nil hbuf

theorem Account.free (h : Account fs bytes .exited buf msgs) (buf' : ReceiveBuf) :
    Account fs bytes .exited buf' msgs := by
  rw [← List.append_nil msgs]
  exact h.goOn rfl rfl nofun nofun rfl

theorem Account.recv (h : Account fs bytes .recv buf msgs)
    (hsmall : ∀ f ∈ fs, f.encode.length < 2 ^ 31) (hne : chunk ≠ [])
    (hle : chunk.length ≤ bufferSize - headroom) (hcomes : bytes ++ chunk <+: stream Frame.encode fs)
    (hkept : (tail Frame.encode fs (bytes ++ chunk).length).length ≤ headroom) :
    Account fs (bytes ++ chunk) (.loop (buf.enter chunk)) (buf.recv chunk) msgs where
  comes := hcomes
  kept := hkept
  fresh := nofun
  through := by
    obtain ⟨hbuf, hmsgs⟩ := h.between rfl
    have hpos : 0 < chunk.length := List.length_pos_iff.mpr hne
    have hn : (tail Frame.encode fs bytes.length).length + chunk.length < 2 ^ 31 := by
      have hroom : bufferSize < 2 ^ 31 := by decide
      have hkept := h.kept
      omega
    have hcut : (stream Frame.encode fs).take (bytes.length + chunk.length) =
        (stream Frame.encode fs).take bytes.length ++ chunk := by
      rw [← List.length_append, ← List.prefix_iff_eq_take.mp hcomes,
        ← List.prefix_iff_eq_take.mp h.comes]
    obtain ⟨henter, hwindow, hlen⟩ := ReceiveBuf.recv_window hcut hn (hbuf rfl)
    refine ⟨whole Frame.encode fs bytes.length, .within (rest Frame.encode fs bytes.length)
      (congrArg _ henter) (by omega) hn (rest_small hsmall) hlen hwindow ?_ ?_, hmsgs⟩
    · rw [List.length_append]
      exact (whole_add Frame.encode fs _ _).symm
    · rw [List.length_append]
      exact (tail_add Frame.encode fs _ _).symm

def passEnd (next : Loop) (buf : ReceiveBuf) (type : Option MsgType) :
    ReceivePc × ReceiveBuf × Option MsgType :=
  if next.totalByte = 0 then (.test, ⟨0, buf.recvbuf⟩, type) else (.loop next, buf, type)

/-- What one pass of the loop makes of the thread. -/
def loopPass (l : Loop) (buf : ReceiveBuf) : Iteration → ReceivePc × ReceiveBuf × Option MsgType
  | .save => (.test, buf.save l, none)
  | .dispatch messageLength next =>
    passEnd next buf ((processMessage buf.recvbuf l.pStart messageLength).map Prod.fst)

theorem Account.pass {l : Loop} (h : Account fs bytes (.loop l) buf msgs) :
    let pass := loopPass l buf (iterate buf.recvbuf l)
    Account fs bytes pass.1 pass.2.1 (msgs ++ pass.2.2.toList) := by
  obtain ⟨done, hprogress, hmsgs⟩ := h.through
  cases hprogress with
  | between hpc => cases hpc
  | @within _ p n todo hpc hpos hn hsmall hlen hwindow hwhole htail =>
    obtain rfl := ReceivePc.loop.inj hpc
    cases todo with
    | nil => exact absurd hlen (Nat.not_le.mpr hpos)
    | cons f todo =>
      by_cases hle : f.encode.length ≤ n
      · have h8 : 4 ≤ n := by
          rw [f.length_encode] at hle
          omega
        obtain ⟨hframe, hnext⟩ := window_split hwindow hle
        rw [whole_cons hle] at hwhole
        rw [tail_cons hle] at htail
        simp only [loopPass, passEnd, iterate_whole hn (myNtohl_window hwindow h8) hle,
          f.command_eq hframe]
        have hposted : msgs ++ f.command.toList =
            (done ++ [f]).filterMap Frame.command ++ [] := by
          rw [hmsgs]
          cases hcommand : f.command <;> simp [ReceivePc.last, hcommand]
        by_cases hz : n - f.encode.length = 0
        · rw [hz, whole_zero] at hwhole
          rw [hz, tail_zero] at htail
          rw [if_pos (by omega)]
          dsimp only
          refine ⟨h.comes, h.kept, nofun, done ++ [f], ?_, hposted⟩
          rw [hwhole]
          refine .between rfl fun _ => ?_
          rw [← htail]
          exact ReceiveBuf.holds_nil rfl
        · rw [if_neg (by omega)]
          dsimp only
          refine ⟨h.comes, h.kept, nofun, done ++ [f],
            .within todo rfl (by omega) (by omega)
              (fun g hg => hsmall g (List.mem_cons_of_mem _ hg)) ?_ hnext ?_ htail, hposted⟩
          · rw [stream_cons, List.length_append] at hlen
            omega
          · rwa [List.append_assoc]
      · have hsave : iterate buf.recvbuf ⟨p, n⟩ = .save := by
          rcases Nat.lt_or_ge 4 n with h4 | h4
          · exact iterate_incomplete (hsmall f (by simp)) (myNtohl_window hwindow (by omega)) hle
          · exact iterate_short h4
        simp only [whole, hle, if_false, List.append_nil] at hwhole
        simp only [tail, hle, if_false] at htail
        simp only [loopPass, hsave]
        refine ⟨h.comes, h.kept, nofun, done, ?_, by simpa [ReceivePc.last] using hmsgs⟩
        rw [hwhole]
        refine .between rfl fun _ => ?_
        rw [← htail, ← hwindow]
        exact ReceiveBuf.save_holds hpos

/-- What a receive thread does at the statement `pc`, `running` being `receive_running`. -/
def threadStep (running : Bool) (chunk : List UInt8) (buf : ReceiveBuf) :
    ReceivePc → Option (ReceivePc × ReceiveBuf × Option MsgType)
  | .absent | .exited => none
  | .test =>
    if running then some (.recv, buf, none) else some (.closing, buf, some .receiveThreadClosed)
  | .recv =>
    if chunk = [] then some (.test, buf, none)
    else if chunk.length ≤ bufferSize then some (.loop (buf.enter chunk), buf.recv chunk, none)
    else none
  | .loop l => some (loopPass l buf (iterate buf.recvbuf l))
  | .closing => some (.exited, buf, none)

theorem Account.thread {pc' : ReceivePc} {buf' : ReceiveBuf} {type : Option MsgType}
    (h : Account fs bytes pc buf msgs) (hsmall : ∀ f ∈ fs, f.encode.length < 2 ^ 31)
    (hs : threadStep running chunk buf pc = some (pc', buf', type))
    (harrives : pc.receives = true → chunk.length ≤ bufferSize - headroom ∧
      bytes ++ chunk <+: stream Frame.encode fs ∧
      (tail Frame.encode fs (bytes ++ chunk).length).length ≤ headroom) :
    Account fs (if pc.receives then bytes ++ chunk else bytes) pc' buf' (msgs ++ type.toList) := by
  cases pc with
  | absent | exited => cases hs
  | test =>
    have hbuf := (h.between rfl).1 rfl
    simp only [threadStep] at hs
    split_ifs at hs <;> cases hs
    · exact h.goOn rfl rfl nofun (fun _ => hbuf) rfl
    · exact h.goOn rfl rfl nofun nofun rfl
  | recv =>
    obtain ⟨hle, hcomes, hkept⟩ := harrives rfl
    simp only [threadStep] at hs
    split_ifs at hs with hnil <;> cases hs
    · have hbuf := (h.between rfl).1 rfl
      simp only [hnil, List.append_nil, ite_self]
      have hnext : Account fs bytes .test buf (msgs ++ []) :=
        h.goOn rfl rfl nofun (fun _ => hbuf) rfl
      simpa using hnext
    · rw [if_pos (show ReceivePc.recv.receives = true from rfl), Option.toList_none,
        List.append_nil]
      exact h.recv hsmall hnil hle hcomes hkept
  | loop l =>
    have hpass := h.pass
    rw [Option.some.inj hs] at hpass
    exact hpass
  | closing =>
    cases hs
    exact h.goOn rfl rfl nofun nofun rfl

-- ---------------------------------------------------------------------------
-- Who signs what
-- ---------------------------------------------------------------------------

/-- The message the thread is about to put into the queue. -/
def PostPc.inHand : PostPc → Option (MsgType × Origin)
  | .want type origin => some (type, origin)
  | .msgsnd m => some (m.type, m.origin)
  | .idle | .unlock => none

/-- What the messages of a thread stem from. -/
def Poster.Signs : Poster → MsgType → Origin → Prop
  | .server, type, _ => type = .acceptNewClient
  | .receive r, type, origin => type ≠ .acceptNewClient ∧ origin = .client r
  | .timer, _, origin => ∀ r, origin ≠ .client r

theorem MsgType.ne_accept_of_fromClient {type : MsgType} (h : type.fromClient = true) :
    type ≠ .acceptNewClient := by
  rintro rfl
  cases h

namespace System

def Signed (s : System) : Prop :=
  ∀ p type origin, (s.post p).inHand = some (type, origin) → p.Signs type origin

variable {s s' : System}

theorem PostMove.inHand (h : PostMove K s p s') {q : Poster} {x : MsgType × Origin}
    (hq : (s'.post q).inHand = some x) : (s.post q).inHand = some x := by
  by_cases hqp : q = p
  · subst hqp
    cases h with
    | lock hpc =>
      rw [hpc]
      simpa [PostPc.inHand] using hq
    | msgsnd | unlock => simp [PostPc.inHand] at hq
  · cases h <;> simpa [hqp] using hq

theorem Signed.post (hi : Signed s) {p : Poster} {pc : PostPc}
    (hpc : ∀ type origin, pc.inHand = some (type, origin) → p.Signs type origin) :
    Signed { s with post := update s.post p pc } := by
  rw [Signed, Function.forall_update_iff s.post fun p pc =>
    ∀ type origin, pc.inHand = some (type, origin) → p.Signs type origin]
  exact ⟨hpc, fun q _ => hi q⟩

theorem Signed.want (hi : Signed s) {p : Poster} {type : MsgType} {origin : Origin}
    (h : p.Signs type origin) : Signed { s with post := update s.post p (.want type origin) } := by
  refine hi.post fun type' origin' heq => ?_
  cases heq
  exact h

theorem Signed.step (hi : Signed s) (h : (adapter K).step s act = some s') : Signed s' := by
  obtain ⟨-, hmove⟩ := step_move h
  cases hmove with
  | post h => exact fun p type origin hp => hi p type origin (h.inHand hp)
  | server h =>
    cases h with
    | post => exact hi.want (p := .server) rfl
    | _ => exact hi
  | receive h =>
    cases h with
    | message _ _ _ _ htype =>
      exact hi.want (p := .receive _) ⟨MsgType.ne_accept_of_fromClient htype, rfl⟩
    | close => exact hi.want (p := .receive _) ⟨nofun, rfl⟩
    | _ => exact hi
  | timer h =>
    cases h with
    | timeout | postStop => exact hi.want (p := .timer) fun _ => nofun
    | _ => exact hi
  | main h => cases h <;> exact hi
  | send h => cases h <;> exact hi
  | spurious | broker | dma | disconnect => exact hi

theorem signed (h : (adapter K).ReachesUnder C s) : Signed s :=
  h.invariant (fun _ _ _ => nofun) fun _ _ _ _ hi _ hs => hi.step hs

-- ---------------------------------------------------------------------------
-- What the other threads do to a record
-- ---------------------------------------------------------------------------

/-- Beside its own thread, only its creation and its release touch what the
thread of record `q` works on. -/
theorem reading_cases (h : Move K s act s') {q : Nat} (hact : ∀ chunk, act ≠ .receive q chunk) :
    (s'.recs q).reading = (s.recs q).reading ∨ q = s.accepted ∧ s'.recs q = .init ∨
      s.main = .free q ∧ (s'.recs q).pc = (s.recs q).pc := by
  cases h with
  | @receive r _ _ h =>
    have hqr : q ≠ r := by
      rintro rfl
      exact hact _ rfl
    refine .inl ?_
    cases h <;> simp [hqr]
  | server h =>
    cases h with
    | create =>
      by_cases hq : q = s.accepted
      · exact .inr (.inl ⟨hq, by simp [hq]⟩)
      · exact .inl (by simp [hq])
    | install => exact .inl (map_update ReceivePara.reading q rfl)
    | _ => exact .inl rfl
  | main h =>
    cases h with
    | @free r hpc =>
      by_cases hq : q = r
      · subst hq
        exact .inr (.inr ⟨hpc, by simp⟩)
      · exact .inl (by simp [hq])
    | acceptFirst | accept => exact .inl (traceAccepted_keeps ReceivePara.reading (fun _ _ => rfl) s _ q)
    | heartBeat => exact .inl (heartBeat_keeps ReceivePara.reading (fun _ _ _ => rfl) s _ _ q)
    | reset | stop => exact .inl (map_update ReceivePara.reading q rfl)
    | _ => exact .inl rfl
  | send h =>
    cases h with
    | full | short => exact .inl (map_update ReceivePara.reading q rfl)
    | _ => exact .inl rfl
  | post h => cases h <;> exact .inl rfl
  | timer h => cases h <;> exact .inl rfl
  | spurious | broker | dma | disconnect => exact .inl rfl

theorem exited_step (hp : Posts s) (h : Move K s act s') (hq : (s.recs q).pc = .exited) :
    (s'.recs q).pc = .exited := by
  by_cases hact : ∃ chunk, act = .receive q chunk
  · obtain ⟨chunk, rfl⟩ := hact
    cases h with
    | receive h =>
      cases h with
      | quiet _ _ hold | message _ _ hold =>
        rw [hq] at hold
        cases hold
      | close _ hpc | exit _ hpc =>
        rw [hq] at hpc
        cases hpc
  · rcases reading_cases h (not_exists.mp hact) with hsame | ⟨rfl, -⟩ | ⟨-, hsame⟩
    · exact (congrArg Prod.fst hsame).trans hq
    · rw [hp.fresh _ (Nat.le_refl _)] at hq
      cases hq
    · exact hsame.trans hq

def Freed (s : System) : Prop := ∀ r, s.main = .free r → (s.recs r).pc = .exited

theorem Freed.step (hi : Freed s) (hp : Posts s) (h : (adapter K).step s act = some s') :
    Freed s' := by
  obtain ⟨-, hmove⟩ := step_move h
  intro r hr
  by_cases hfree : s.main = .free r
  · exact exited_step hp hmove (hi r hfree)
  · cases hmove with
    | main h =>
      cases h with
      | join _ hexit =>
        cases hr
        exact hexit
      | crash => exact absurd hr hfree
      | _ => cases hr
    | server h | receive h | post h | timer h | send h =>
      exact absurd (by cases h <;> exact hr) hfree
    | spurious | broker | dma | disconnect => exact absurd hr hfree

theorem freed (h : (adapter K).ReachesUnder C s) : Freed s :=
  h.invariant (fun _ => nofun) fun _ _ _ hr hi _ hs => hi.step (posts hr) hs

end System

-- ---------------------------------------------------------------------------
-- The traffic of a run
-- ---------------------------------------------------------------------------

structure Traffic where
  -- what `recv` returned on each connection
  received : Nat → List UInt8
  -- what the main thread took from the queue
  taken : List Msg

namespace Traffic

def init : Traffic := ⟨fun _ => [], []⟩

def record (s : System) : Act → Traffic → Traffic
  | .receive r chunk, h =>
    if (s.recs r).pc.receives then
      { h with received := update h.received r (h.received r ++ chunk) }
    else h
  | .main _, h =>
    match s.main, s.queue with
    | .idle, m :: _ => { h with taken := h.taken ++ [m] }
    | _, _ => h
  | _, h => h

end Traffic

def recording (K : Nat) : Machine (System × Traffic) Act :=
  (adapter K).withHistory .init Traffic.record

def Msg.isFrom (r : Nat) (m : Msg) : Bool :=
  decide (m.type ≠ .acceptNewClient) && decide (m.origin = .client r)

namespace System

/-- What `recv` returns goes on in the stream of the client's frames, fits
behind the headroom, and leaves a tail that fits into it. -/
def Arrives (sent : Nat → List Frame) (p : System × Traffic) : Act → Prop
  | .receive r chunk => (p.1.recs r).pc.receives = true →
    chunk.length ≤ bufferSize - headroom ∧
    p.2.received r ++ chunk <+: stream Frame.encode (sent r) ∧
    (tail Frame.encode (sent r) (p.2.received r ++ chunk).length).length ≤ headroom
  | _ => True

/-- The messages of receive thread `r`: taken, in the queue, and in its hand. -/
def messagesOf (r : Nat) (p : System × Traffic) : List MsgType :=
  ((p.2.taken ++ p.1.queue).filter (·.isFrom r)).map (·.type) ++
    (p.1.post (.receive r)).type?.toList

def Delivered (sent : Nat → List Frame) (p : System × Traffic) : Prop :=
  ∀ r, Account (sent r) (p.2.received r) (p.1.recs r).pc (p.1.recs r).buf (messagesOf r p)

variable {s s' : System} {h : Traffic} {sent : Nat → List Frame}

theorem isFrom_of_signs {p : Poster} {m : Msg} (h : p.Signs m.type m.origin) (r : Nat) :
    m.isFrom r = decide (p = .receive r) := by
  cases p with
  | server => simp [Msg.isFrom, show m.type = .acceptNewClient from h]
  | receive q => simp [Msg.isFrom, h.1, h.2]
  | timer => simp [Msg.isFrom, h r]

theorem messagesOf_post (hi : Signed s) (hm : PostMove K s p s') (r : Nat) :
    messagesOf r (s', h) = messagesOf r (s, h) := by
  by_cases hp : p = .receive r
  · subst hp
    cases hm with
    | lock hpc => simp [messagesOf, hpc, PostPc.type?]
    | @msgsnd m hpc =>
      have hfrom := isFrom_of_signs (hi (.receive r) m.type m.origin (by rw [hpc]; rfl)) r
      simp [messagesOf, hpc, PostPc.type?, hfrom]
    | unlock hpc => simp [messagesOf, hpc, PostPc.type?]
  · have hr : Poster.receive r ≠ p := Ne.symm hp
    cases hm with
    | lock | unlock => simp [messagesOf, hr]
    | @msgsnd m hpc =>
      have hfrom := isFrom_of_signs (hi p m.type m.origin (by rw [hpc]; rfl)) r
      simp [messagesOf, hr, hp, hfrom]

theorem messagesOf_main (hm : MainMove s s') (a : Answer) (r : Nat) :
    messagesOf r (s', Traffic.record s (.main a) h) = messagesOf r (s, h) := by
  cases hm with
  | take hpc hqueue => simp [messagesOf, Traffic.record, hpc, hqueue]
  | crash hpc =>
    cases hmain : s.main with
    | idle =>
      rw [hmain] at hpc
      cases hpc
    | _ => simp [messagesOf, Traffic.record, hmain]
  | _ => simp [messagesOf, Traffic.record, *]

theorem messagesOf_other (hqueue : s'.queue = s.queue)
    (hpost : s'.post (.receive r) = s.post (.receive r)) :
    messagesOf r (s', h) = messagesOf r (s, h) := by
  simp only [messagesOf, hqueue, hpost]

theorem record_taken_receive (s : System) (r : Nat) (chunk : List UInt8) (h : Traffic) :
    (Traffic.record s (.receive r chunk) h).taken = h.taken := by
  simp only [Traffic.record]
  split <;> rfl

theorem record_received (s : System) (act : Act) (h : Traffic) {q : Nat}
    (hact : ∀ chunk, act ≠ .receive q chunk) :
    (Traffic.record s act h).received q = h.received q := by
  cases act with
  | receive r chunk =>
    have hqr : q ≠ r := by
      rintro rfl
      exact hact chunk rfl
    simp only [Traffic.record]
    split
    · exact Function.update_of_ne hqr _ _
    · rfl
  | main a =>
    simp only [Traffic.record]
    split <;> rfl
  | _ => rfl

-- ---------------------------------------------------------------------------
-- Steps of the thread itself
-- ---------------------------------------------------------------------------

theorem messagesOf_receive {h' : Traffic} (hidle : s.post (.receive r) = .idle)
    (hqueue : s'.queue = s.queue) (htaken : h'.taken = h.taken) :
    messagesOf r (s', h') = messagesOf r (s, h) ++ (s'.post (.receive r)).type?.toList := by
  simp [messagesOf, hidle, hqueue, htaken, PostPc.type?]

theorem dispatched_thread (s : System) (next : Loop)
    (call : Option (MsgType × Option (Mem UInt8 × Int) × Int))
    (hidle : s.post (.receive r) = .idle) :
    let s' := s.dispatched r next call
    s'.queue = s.queue ∧ passEnd next (s.recs r).buf (call.map Prod.fst) =
      ((s'.recs r).pc, (s'.recs r).buf, (s'.post (.receive r)).type?) := by
  unfold dispatched passEnd
  cases call <;> split_ifs <;> simp [hidle, PostPc.type?]

theorem loopStep_thread (s : System) (l : Loop) (iteration : Iteration)
    (hidle : s.post (.receive r) = .idle) :
    let s' := s.loopStep r l iteration
    s'.queue = s.queue ∧ loopPass l (s.recs r).buf iteration =
      ((s'.recs r).pc, (s'.recs r).buf, (s'.post (.receive r)).type?) := by
  cases iteration with
  | save => simp [loopStep, loopPass, hidle, PostPc.type?]
  | dispatch messageLength next =>
    rw [loopStep, loopPass]
    exact s.dispatched_thread next _ hidle

theorem receiveStep_thread (hs : s.receiveStep r chunk = some s') :
    s.post (.receive r) = .idle ∧ s'.queue = s.queue ∧
      threadStep (s.recs r).receiveRunning chunk (s.recs r).buf (s.recs r).pc =
        some ((s'.recs r).pc, (s'.recs r).buf, (s'.post (.receive r)).type?) := by
  by_cases hidle : s.post (.receive r) = .idle
  · refine ⟨hidle, ?_⟩
    cases hpc : (s.recs r).pc with
    | absent | exited => simp [receiveStep, hpc] at hs
    | test =>
      simp only [receiveStep, hidle, hpc, if_true] at hs
      split_ifs at hs with hrun <;> cases hs
      · simp [threadStep, hrun, hidle, PostPc.type?]
      · simp [threadStep, hrun, PostPc.type?]
    | recv =>
      simp only [receiveStep, hidle, hpc, if_true] at hs
      split_ifs at hs with hnil hle <;> cases hs
      · simp [threadStep, hnil, hidle, PostPc.type?]
      · simp [threadStep, hnil, hle, hidle, PostPc.type?]
    | loop l =>
      simp only [receiveStep, hidle, hpc, if_true] at hs
      cases hs
      obtain ⟨hqueue, hpass⟩ := s.loopStep_thread l (iterate (s.recs r).buf.recvbuf l) hidle
      exact ⟨hqueue, congrArg some hpass⟩
    | closing =>
      simp only [receiveStep, hidle, hpc, if_true] at hs
      cases hs
      simp [threadStep, hidle, PostPc.type?]
  · simp only [receiveStep, hidle, if_false, reduceCtorEq] at hs

theorem Delivered.receive (hi : Delivered sent (s, h))
    (hsmall : ∀ f ∈ sent r, f.encode.length < 2 ^ 31)
    (harrives : Arrives sent (s, h) (.receive r chunk)) (hs : s.receiveStep r chunk = some s') :
    Account (sent r) ((Traffic.record s (.receive r chunk) h).received r) (s'.recs r).pc
      (s'.recs r).buf (messagesOf r (s', Traffic.record s (.receive r chunk) h)) := by
  obtain ⟨hidle, hqueue, hthread⟩ := receiveStep_thread hs
  have hreceived : (Traffic.record s (.receive r chunk) h).received r =
      if (s.recs r).pc.receives then h.received r ++ chunk else h.received r := by
    simp only [Traffic.record]
    split <;> simp
  rw [messagesOf_receive hidle hqueue (record_taken_receive s r chunk h), hreceived]
  exact (hi r).thread hsmall hthread harrives

-- ---------------------------------------------------------------------------
-- All steps
-- ---------------------------------------------------------------------------

theorem delivered_init (sent : Nat → List Frame) : Delivered sent (.init, .init) :=
  fun r => Account.init (sent r) _

theorem Delivered.other (hi : Delivered sent (s, h)) (hp : Posts s) (hf : Freed s)
    (hm : Move K s act s') (hact : ∀ chunk, act ≠ .receive r chunk)
    (hmsgs : messagesOf r (s', Traffic.record s act h) = messagesOf r (s, h)) :
    Account (sent r) ((Traffic.record s act h).received r) (s'.recs r).pc (s'.recs r).buf
      (messagesOf r (s', Traffic.record s act h)) := by
  have hr := hi r
  rw [hmsgs, record_received s act h hact]
  rcases reading_cases hm hact with hsame | ⟨rfl, hnew⟩ | ⟨hfree, hpc⟩
  · obtain ⟨hpc, hbuf⟩ := Prod.mk.inj hsame
    rwa [hpc, hbuf]
  · dsimp only at hr
    rw [hp.fresh _ (Nat.le_refl _)] at hr
    rw [hnew]
    exact hr.create rfl
  · dsimp only at hr
    rw [hpc, hf r hfree]
    rw [hf r hfree] at hr
    exact hr.free _

theorem messagesOf_move (hi : Signed s) (hm : Move K s act s')
    (hact : ∀ chunk, act ≠ .receive r chunk) :
    messagesOf r (s', Traffic.record s act h) = messagesOf r (s, h) := by
  cases hm with
  | post hm => exact messagesOf_post hi hm r
  | main hm => exact messagesOf_main hm _ r
  | server hm => cases hm <;> exact messagesOf_other rfl (by simp)
  | timer hm => cases hm <;> exact messagesOf_other rfl (by simp)
  | send hm => cases hm <;> exact messagesOf_other rfl (by simp)
  | spurious | broker | dma | disconnect => exact messagesOf_other rfl rfl
  | @receive q _ _ hm =>
    have hqr : r ≠ q := by
      rintro rfl
      exact hact _ rfl
    have hsame : messagesOf r (s', h) = messagesOf r (s, h) := by
      cases hm <;> exact messagesOf_other rfl (by simp [hqr])
    rw [← hsame]
    simp only [messagesOf, record_taken_receive]

theorem Delivered.step {p p' : System × Traffic} (hi : Delivered sent p)
    (hsmall : ∀ r, ∀ f ∈ sent r, f.encode.length < 2 ^ 31) (hp : Posts p.1) (hsigned : Signed p.1)
    (hf : Freed p.1) (harrives : Arrives sent p act) (hs : (recording K).step p act = some p') :
    Delivered sent p' := by
  obtain ⟨s', hstep, rfl⟩ := Option.map_eq_some_iff.mp hs
  obtain ⟨hfault, hmove⟩ := step_move hstep
  intro r
  by_cases hact : ∃ chunk, act = .receive r chunk
  · obtain ⟨chunk, rfl⟩ := hact
    refine hi.receive (hsmall r) harrives ?_
    simpa [adapter, System.step, hfault] using hstep
  · rw [not_exists] at hact
    exact hi.other hp hf hmove hact (messagesOf_move hsigned hmove hact)

theorem recording_reaches {p : System × Traffic} (hr : (recording K).ReachesUnder C p) :
    (adapter K).Reaches p.1 :=
  Machine.ReachesUnder.fst (C := Machine.Always) (hr.mono fun _ _ _ _ => trivial)

theorem delivered {p : System × Traffic} (hsmall : ∀ r, ∀ f ∈ sent r, f.encode.length < 2 ^ 31)
    (hr : (recording K).ReachesUnder (Arrives sent) p) : Delivered sent p :=
  hr.invariant (delivered_init sent) fun _ _ _ hr hi harrives hs =>
    have hreach := recording_reaches hr
    hi.step hsmall (posts hreach) (signed hreach) (freed hreach) harrives hs

/-- In every run the messages of a receive thread, in the order in which the
main thread takes them, are the commands of the frames its client has sent
whole, in their order and each once, and after the end of the thread its last
message. Only frames of the window the thread is walking over are still to come. -/
theorem commands_delivered {p : System × Traffic}
    (hsmall : ∀ r, ∀ f ∈ sent r, f.encode.length < 2 ^ 31)
    (hr : (recording K).ReachesUnder (Arrives sent) p) (r : Nat) :
    ∃ done todo, done ++ todo = whole Frame.encode (sent r) (p.2.received r).length ∧
      ((p.1.recs r).pc.inLoop = false → todo = []) ∧
      messagesOf r p = done.filterMap Frame.command ++ (p.1.recs r).pc.last := by
  obtain ⟨done, hprogress, hmsgs⟩ := (delivered hsmall hr r).through
  cases hprogress with
  | between => exact ⟨_, [], List.append_nil _, fun _ => rfl, hmsgs⟩
  | within todo hpc _ _ _ _ _ hwhole =>
    refine ⟨done, _, hwhole, fun hout => ?_, hmsgs⟩
    rw [hpc] at hout
    cases hout

instance (sent : Nat → List Frame) (p : System × Traffic) : (act : Act) →
    Decidable (Arrives sent p act)
  | .receive _ _ => inferInstanceAs (Decidable (_ → _))
  | .server _ | .post _ | .timer | .spurious | .main _ | .send _ _ | .callback _ _ _
  | .disconnect => isTrue trivial

/-- A heart beat and an inquiry arrive in three pieces; the main thread takes the first. -/
def deliver : List Act :=
  boot ++ acceptClient ++ mains 9 ++
    [.receive 0 [], .receive 0 [4, 0], .receive 0 [], .receive 0 []] ++
    [.receive 0 [0, 0, 99, 0, 0, 0, 5], .receive 0 []] ++ posted (.receive 0) ++
    [.receive 0 [], .receive 0 [], .receive 0 [0, 0, 0, 1, 0, 0, 0, 7], .receive 0 []] ++
    posted (.receive 0) ++ mains 1

theorem deliver_commands :
    ∃ p, (recording 8).run deliver = some p ∧
      messagesOf 0 p = [.receivedHeartBeat, .inquiryState] ∧ p.2.taken.length = 2 ∧
      ∃ done todo, done ++ todo = whole Frame.encode beatThenInquiry (p.2.received 0).length ∧
        ((p.1.recs 0).pc.inLoop = false → todo = []) ∧
        messagesOf 0 p = done.filterMap Frame.command ++ (p.1.recs 0).pc.last := by
  let sent : Nat → List Frame := fun r => if r = 0 then beatThenInquiry else []
  have hsmall : ∀ r, ∀ f ∈ sent r, f.encode.length < 2 ^ 31 := by
    intro r
    by_cases hr : r = 0
    · simp only [sent, hr, if_true]
      decide
    · simp [sent, hr]
  obtain ⟨p, hrun, hp⟩ := (Option.any_eq_true _ _).mp (show
    ((recording 8).run deliver).any (fun p => messagesOf 0 p = [.receivedHeartBeat, .inquiryState] ∧
      p.2.taken.length = 2) = true by decide +kernel)
  have hreach := Machine.run_reachesUnder (C := Arrives sent) (by decide +kernel) hrun
  obtain ⟨hmsgs, htaken⟩ := of_decide_eq_true hp
  exact ⟨p, hrun, hmsgs, htaken, commands_delivered hsmall hreach 0⟩

end System

end DevAdapter
