import DevAdapter.Lib.Machine
import DevAdapter.Lib.Mutex
import DevAdapter.MsgQueue

/-!
# The order of the queue

Any number of threads post through `postMsgQueue` and the main thread takes
with `getMsgQueue`, statement by statement. A message gets its number under the
mutex and is sent before the mutex is unlocked, also where `msgsnd` waits for
room in between, so the numbers follow the order of the queue.
-/

namespace DevAdapter

open Function (update)
open OffsetMemory Word32 Transition

/-- Where a thread is in `postMsgQueue`; `call` says how many calls it made before. -/
inductive PostQueuePc
  | idle
  | lock (call : Nat) (data : MsgSt)
  | number (call : Nat) (data : MsgSt)
  | increment (call : Nat) (data : MsgSt)
  | msgsnd (call : Nat) (data : MsgSt)
  | unlock

structure Queued (θ : Type u) where
  msg : KernelMsg
  -- trace: whose message it is, and of which of its calls
  poster : θ
  call : Nat

/-- What a call of `getMsgQueue` returned, with the same trace. -/
structure Taken (θ : Type u) where
  msg : MsgSt
  poster : θ
  call : Nat

structure PostQueue (θ : Type u) where
  seqId : Int
  mutex : Option θ
  queue : List (Queued θ)
  pc : θ → PostQueuePc
  -- trace: how often a thread called `postMsgQueue`
  calls : θ → Nat
  -- trace: what was taken from the queue
  taken : List (Taken θ)

/-- A thread calls `postMsgQueue` or goes on in it, or the main thread takes a
message, into a struct `heap` from `malloc`. -/
inductive PostQueueAct (θ : Type u)
  | call (t : θ) (data : MsgSt)
  | go (t : θ)
  | get (heap : MsgSt)

namespace PostQueue

variable {θ : Type u} [DecidableEq θ]

def init : PostQueue θ where
  seqId := 1
  mutex := none
  queue := []
  pc := fun _ => .idle
  calls := fun _ => 0
  taken := []

def go (K : Nat) (s : PostQueue θ) (t : θ) : Option (PostQueue θ) :=
  match s.pc t with
  | .idle => none
  | .lock call data =>
    if s.mutex.isNone then
      some { s with mutex := some t, pc := update s.pc t (.number call data) }
    else none
  | .number call data =>
    some { s with pc := update s.pc t (.increment call { data with msgNumber := s.seqId }) }
  | .increment call data =>
    some { s with seqId := wrap32 (s.seqId + 1), pc := update s.pc t (.msgsnd call data) }
  | .msgsnd call data =>
    -- the thread waits for room with the mutex in its hands
    if s.queue.length < K then
      let sent := (DevAdapter.msgsnd [] data maxText).getD []
      some { s with
        queue := s.queue ++ sent.map fun msg => ⟨msg, t, call⟩
        pc := update s.pc t .unlock }
    else none
  | .unlock => some { s with mutex := none, pc := update s.pc t .idle }

def step (K : Nat) (s : PostQueue θ) : PostQueueAct θ → Option (PostQueue θ)
  | .call t data =>
    match s.pc t with
    | .idle => some { s with
        pc := update s.pc t (.lock (s.calls t) data)
        calls := update s.calls t (s.calls t + 1) }
    | _ => none
  | .go t => s.go K t
  | .get heap =>
    match s.queue with
    | [] => none
    | m :: queue =>
      (getMsgQueue heap ⟨s.seqId, [m.msg]⟩).map fun (msg, _) =>
        { s with queue := queue, taken := s.taken ++ [⟨msg, m.poster, m.call⟩] }

end PostQueue

def posting (θ : Type u) [DecidableEq θ] (K : Nat) : Machine (PostQueue θ) (PostQueueAct θ) :=
  ⟨.init, PostQueue.step K⟩

def PostQueuePc.critical : PostQueuePc → Bool
  | .number _ _ | .increment _ _ | .msgsnd _ _ | .unlock => true
  | .idle | .lock _ _ => false

/-- The call whose message is not in the queue yet. -/
def PostQueuePc.inHand : PostQueuePc → Option Nat
  | .lock call _ | .number call _ | .increment call _ | .msgsnd call _ => some call
  | .idle | .unlock => none

/-- The `msgsnd` the thread comes to does not return -1. -/
def PostQueuePc.sends : PostQueuePc → Bool
  | .msgsnd _ data => (DevAdapter.msgsnd [] data maxText).isSome
  | _ => true

def KernelMsg.number (msg : KernelMsg) : Int := ofLe32 (msg.mtext.take 4)

theorem overlay_msgNumber (heap : MsgSt) {msg : KernelMsg} (h : 4 ≤ msg.mtext.length) :
    (heap.overlay ⟨msg.mtype, msg.mtext.take maxText⟩).msgNumber = msg.number := by
  have hmin : min 4 maxText = 4 := rfl
  have hlen : 4 ≤ (msg.mtext.take maxText).length := by
    rw [List.length_take]
    unfold maxText
    omega
  have hroom : min 4 (maxText + 8) = 4 := rfl
  simp only [MsgSt.overlay, MsgSt.ofText, KernelMsg.number, List.take_take, hroom]
  rw [List.take_append_of_le_length hlen, List.take_take, hmin]

theorem msgsnd_number {data : MsgSt} (h : (msgsnd [] data maxText).isSome = true) :
    ∃ msg : KernelMsg, (msgsnd [] data maxText).getD [] = [msg] ∧ msg.number = wrap32 data.msgNumber ∧
      4 ≤ msg.mtext.length := by
  unfold msgsnd at h ⊢
  split
  · refine ⟨_, rfl, ?_, ?_⟩
    · have hmin : min 4 maxText = 4 := rfl
      rw [KernelMsg.number, List.take_take, hmin, MsgSt.text, List.append_assoc,
        List.take_left' (length_le32 _), ofLe32_le32]
    · rw [List.length_take, MsgSt.length_text]
      unfold maxText
      omega
  · rename_i hneg
    simp [hneg] at h

namespace PostQueue

variable {θ : Type u} [DecidableEq θ] {K : Nat} {s s' : PostQueue θ}

-- ---------------------------------------------------------------------------
-- What a step can do
-- ---------------------------------------------------------------------------

inductive Move (K : Nat) (s : PostQueue θ) : PostQueueAct θ → PostQueue θ → Prop
  | call {t} (data : MsgSt) (hpc : s.pc t = .idle) : Move K s (.call t data) { s with
      pc := update s.pc t (.lock (s.calls t) data)
      calls := update s.calls t (s.calls t + 1) }
  | lock {t call data} (hpc : s.pc t = .lock call data) (hfree : s.mutex = none) :
    Move K s (.go t) { s with mutex := some t, pc := update s.pc t (.number call data) }
  | number {t call data} (hpc : s.pc t = .number call data) : Move K s (.go t) { s with
      pc := update s.pc t (.increment call { data with msgNumber := s.seqId }) }
  | increment {t call data} (hpc : s.pc t = .increment call data) : Move K s (.go t) { s with
      seqId := wrap32 (s.seqId + 1), pc := update s.pc t (.msgsnd call data) }
  | msgsnd {t call data} (hpc : s.pc t = .msgsnd call data) (hroom : s.queue.length < K) :
    Move K s (.go t) { s with
      queue := s.queue ++ ((DevAdapter.msgsnd [] data maxText).getD []).map fun msg => ⟨msg, t, call⟩
      pc := update s.pc t .unlock }
  | unlock {t} (hpc : s.pc t = .unlock) :
    Move K s (.go t) { s with mutex := none, pc := update s.pc t .idle }
  | get {m queue} (heap : MsgSt) (hqueue : s.queue = m :: queue) : Move K s (.get heap) { s with
      queue := queue
      taken := s.taken ++
        [⟨heap.overlay ⟨m.msg.mtype, m.msg.mtext.take maxText⟩, m.poster, m.call⟩] }

theorem step_move (h : (posting θ K).step s act = some s') : Move K s act s' := by
  cases act with
  | call t data =>
    simp only [posting, step] at h
    split at h <;> rename_i hpc
    · cases h
      exact .call data hpc
    · cases h
  | go t =>
    simp only [posting, step] at h
    cases hpc : s.pc t with
    | idle => simp [go, hpc] at h
    | lock call data =>
      simp only [go, hpc] at h
      split at h <;> cases h
      exact .lock hpc (Option.isNone_iff_eq_none.mp ‹_›)
    | number call data =>
      simp only [go, hpc] at h
      cases h
      exact .number hpc
    | increment call data =>
      simp only [go, hpc] at h
      cases h
      exact .increment hpc
    | msgsnd call data =>
      simp only [go, hpc] at h
      split at h <;> cases h
      exact .msgsnd hpc ‹_›
    | unlock =>
      simp only [go, hpc] at h
      cases h
      exact .unlock hpc
  | get heap =>
    simp only [posting, step] at h
    split at h <;> rename_i hqueue
    · cases h
    · cases h
      exact .get heap hqueue

def Sends (s : PostQueue θ) : PostQueueAct θ → Prop
  | .go t => (s.pc t).sends = true
  | _ => True

instance (s : PostQueue θ) : (act : PostQueueAct θ) → Decidable (Sends s act)
  | .call _ _ | .get _ => isTrue trivial
  | .go t => inferInstanceAs (Decidable ((s.pc t).sends = true))

end PostQueue

-- ---------------------------------------------------------------------------
-- What was ever in the queue
-- ---------------------------------------------------------------------------

namespace PostQueue

variable {θ : Type u}

/-- The calls whose messages are or were in the queue, in its order. -/
def history (s : PostQueue θ) : List (θ × Nat) :=
  s.taken.map (fun m => (m.poster, m.call)) ++ s.queue.map (fun m => (m.poster, m.call))

def numbers (s : PostQueue θ) : List Int :=
  s.taken.map (fun m => m.msg.msgNumber) ++ s.queue.map (fun m => m.msg.number)

@[simp] theorem length_numbers (s : PostQueue θ) : s.numbers.length = s.history.length := by
  simp [numbers, history]

theorem take_numbers (s : PostQueue θ) :
    s.taken.map (fun m => m.msg.msgNumber) = s.numbers.take s.taken.length := by
  rw [numbers, List.take_left' (List.length_map _)]

/-- What the number of a thread's message and `seq_id` are where it holds the
mutex, `n` messages having been in the queue. -/
def Agrees (n : Nat) (seqId : Int) : PostQueuePc → Prop
  | .number _ _ | .unlock => seqId = wrap32 (n + 1)
  | .increment _ data => data.msgNumber = wrap32 (n + 1) ∧ seqId = wrap32 (n + 1)
  | .msgsnd _ data => data.msgNumber = wrap32 (n + 1) ∧ seqId = wrap32 (n + 2)
  | .idle | .lock _ _ => True

structure NumberedAt (numbers : List Int) (q : Int) (owner : Option θ)
    (pc : θ → PostQueuePc) : Prop where
  excludes : Mutex.Excludes PostQueuePc.critical pc owner
  free : owner = none → q = wrap32 (numbers.length + 1)
  agrees : ∀ t, Agrees numbers.length q (pc t)
  consecutive : numbers = (List.range numbers.length).map fun (i : Nat) => wrap32 (i + 1)

structure Numbered (s : PostQueue θ) : Prop where
  numbered : NumberedAt s.numbers s.seqId s.mutex s.pc
  long : ∀ m ∈ s.queue, 4 ≤ m.msg.mtext.length

theorem agrees_of_outside {pc : PostQueuePc} (h : pc.critical = false) (n : Nat) (q : Int) :
    Agrees n q pc := by
  cases pc with
  | idle | lock => trivial
  | number | increment | msgsnd | unlock => cases h

theorem NumberedAt.others {ns : List Int} {q : Int} {owner : Option θ} {pc : θ → PostQueuePc}
    {t : θ} (hi : NumberedAt ns q owner pc) (ht : (pc t).critical = true) (n : Nat) (q' : Int) :
    ∀ y ≠ t, Agrees n q' (pc y) := by
  intro y hy
  refine agrees_of_outside ?_ n q'
  by_contra hin
  exact hy (hi.excludes.unique (by simpa using hin) ht)

theorem wrap32_wrap32 (x : Int) : wrap32 (wrap32 x) = wrap32 x := by
  unfold wrap32
  exact Int.bmod_bmod

theorem wrap32_succ (x : Int) : wrap32 (wrap32 x + 1) = wrap32 (x + 1) := by
  unfold wrap32
  exact Int.bmod_add_bmod

theorem numberedAt_init : NumberedAt ([] : List Int) 1 (none : Option θ) fun _ => .idle where
  excludes _ := nofun
  free _ := by decide
  agrees _ := trivial
  consecutive := rfl

theorem numbered_init : Numbered (init : PostQueue θ) :=
  ⟨numberedAt_init, nofun⟩

section

variable [DecidableEq θ] {ns : List Int} {q q' : Int} {owner : Option θ} {pc : θ → PostQueuePc}
  {t : θ} {place : PostQueuePc}

theorem NumberedAt.lock (hi : NumberedAt ns q owner pc) (hfree : owner = none)
    (hplace : q = wrap32 (ns.length + 1) → Agrees ns.length q place) :
    NumberedAt ns q (some t) (update pc t place) := by
  refine ⟨hi.excludes.lock hfree, nofun, ?_, hi.consecutive⟩
  rw [Function.forall_update_iff pc fun _ pc => Agrees ns.length q pc]
  exact ⟨hplace (hi.free hfree), fun y _ => hi.agrees y⟩

theorem NumberedAt.outside (hi : NumberedAt ns q owner pc) (hplace : place.critical = false) :
    NumberedAt ns q owner (update pc t place) := by
  refine ⟨hi.excludes.move fun h => by simp [hplace] at h, hi.free, ?_, hi.consecutive⟩
  rw [Function.forall_update_iff pc fun _ pc => Agrees ns.length q pc]
  exact ⟨agrees_of_outside hplace _ _, fun y _ => hi.agrees y⟩

theorem NumberedAt.inside (hi : NumberedAt ns q owner pc) (hin : (pc t).critical = true)
    (hplace : Agrees ns.length q' place) : NumberedAt ns q' owner (update pc t place) := by
  refine ⟨hi.excludes.move fun _ => hin, fun hfree => ?_, ?_, hi.consecutive⟩
  · rw [hi.excludes t hin] at hfree
    cases hfree
  · rw [Function.forall_update_iff pc fun _ pc => Agrees ns.length q' pc]
    exact ⟨hplace, hi.others hin _ _⟩

theorem NumberedAt.sent (hi : NumberedAt ns q owner pc) (hin : (pc t).critical = true)
    (hq : q = wrap32 (ns.length + 2)) :
    NumberedAt (ns ++ [wrap32 (ns.length + 1)]) q owner (update pc t .unlock) := by
  have hlen : (ns ++ [wrap32 (ns.length + 1)]).length = ns.length + 1 := List.length_append
  refine ⟨hi.excludes.move fun _ => hin, fun hfree => ?_, ?_, ?_⟩
  · rw [hi.excludes t hin] at hfree
    cases hfree
  · rw [Function.forall_update_iff pc fun _ pc => Agrees _ q pc, hlen]
    refine ⟨?_, hi.others hin _ _⟩
    rw [Agrees, hq, Nat.cast_add_one, add_assoc, one_add_one_eq_two]
  · rw [hlen, List.range_succ, List.map_append, ← hi.consecutive]
    rfl

theorem NumberedAt.unlock (hi : NumberedAt ns q owner pc) (hin : (pc t).critical = true)
    (hq : q = wrap32 (ns.length + 1)) : NumberedAt ns q none (update pc t .idle) := by
  refine ⟨hi.excludes.unlock hin rfl, fun _ => hq, ?_, hi.consecutive⟩
  rw [Function.forall_update_iff pc fun _ pc => Agrees ns.length q pc]
  exact ⟨trivial, fun y _ => hi.agrees y⟩

end

variable [DecidableEq θ] {K : Nat} {s s' : PostQueue θ}

theorem Numbered.step (hi : Numbered s) (hc : Sends s act) (h : Move K s act s') :
    Numbered s' := by
  obtain ⟨hn, hlong⟩ := hi
  cases h with
  | call data hpc => exact ⟨hn.outside rfl, hlong⟩
  | lock hpc hfree => exact ⟨hn.lock hfree fun hq => hq, hlong⟩
  | @number t call data hpc =>
    have hagrees := hn.agrees t
    rw [hpc] at hagrees
    exact ⟨hn.inside (by rw [hpc]; rfl) ⟨hagrees, hagrees⟩, hlong⟩
  | @increment t call data hpc =>
    have hagrees := hn.agrees t
    rw [hpc] at hagrees
    obtain ⟨hnumber, hseq⟩ := hagrees
    refine ⟨hn.inside (by rw [hpc]; rfl) ⟨hnumber, ?_⟩, hlong⟩
    rw [hseq, wrap32_succ, add_assoc, one_add_one_eq_two]
  | @msgsnd t call data hpc hroom =>
    have hagrees := hn.agrees t
    rw [hpc] at hagrees
    obtain ⟨hnumber, hseq⟩ := hagrees
    simp only [Sends, hpc, PostQueuePc.sends] at hc
    obtain ⟨msg, hsent, hmsg, hlen⟩ := msgsnd_number hc
    rw [hnumber, wrap32_wrap32] at hmsg
    have hnext := hn.sent (by rw [hpc]; rfl) hseq
    rw [hsent]
    refine ⟨?_, ?_⟩
    · simpa [numbers, hmsg] using hnext
    · simpa [or_imp, forall_and, hlen] using hlong
  | @unlock t hpc =>
    have hagrees := hn.agrees t
    rw [hpc] at hagrees
    exact ⟨hn.unlock (by rw [hpc]; rfl) hagrees, hlong⟩
  | @get m queue heap hqueue =>
    rw [hqueue] at hlong
    have hm := hlong m (List.mem_cons_self ..)
    refine ⟨?_, fun m' hm' => hlong m' (List.mem_cons_of_mem _ hm')⟩
    simpa [numbers, hqueue, overlay_msgNumber heap hm] using hn

def callsOf (calls : List (θ × Nat)) (t : θ) : List Nat :=
  (calls.filter (·.1 = t)).map (·.2)

/-- The calls of a thread whose messages were sent are its first, in their order. -/
structure InOrder (s : PostQueue θ) : Prop where
  sent : ∀ t, callsOf s.history t = List.range ((s.pc t).inHand.getD (s.calls t))
  last : ∀ t n, (s.pc t).inHand = some n → s.calls t = n + 1

theorem inOrder_init : InOrder (init : PostQueue θ) where
  sent _ := rfl
  last _ _ := nofun

theorem InOrder.same (hi : InOrder s) (hhistory : s'.history = s.history)
    (hcalls : s'.calls = s.calls) (hpc : ∀ t, (s'.pc t).inHand = (s.pc t).inHand) : InOrder s' where
  sent t := by rw [hhistory, hcalls, hpc, hi.sent]
  last t n h := by
    rw [hpc] at h
    rw [hcalls, hi.last t n h]

theorem callsOf_append (h h' : List (θ × Nat)) (t : θ) :
    callsOf (h ++ h') t = callsOf h t ++ callsOf h' t := by
  rw [callsOf, List.filter_append, List.map_append]
  rfl

theorem InOrder.call (hi : InOrder s) (data : MsgSt) (hpc : s.pc t = .idle) :
    InOrder { s with
      pc := update s.pc t (.lock (s.calls t) data)
      calls := update s.calls t (s.calls t + 1) } := by
  have hbefore : callsOf s.history t = List.range (s.calls t) := by
    rw [hi.sent, hpc]
    rfl
  constructor
  · intro y
    by_cases hy : y = t
    · subst hy
      simpa [history, PostQueuePc.inHand] using hbefore
    · simpa [history, hy] using hi.sent y
  · intro y n hn
    by_cases hy : y = t
    · subst hy
      simpa [PostQueuePc.inHand] using hn
    · simp only [Function.update_of_ne hy] at hn ⊢
      exact hi.last y n hn

theorem InOrder.msgsnd {call : Nat} (hi : InOrder s) (msg : KernelMsg)
    (hhand : (s.pc t).inHand = some call) :
    InOrder { s with queue := s.queue ++ [⟨msg, t, call⟩], pc := update s.pc t .unlock } := by
  have hhistory : PostQueue.history { s with
      queue := s.queue ++ [⟨msg, t, call⟩], pc := update s.pc t .unlock } =
      s.history ++ [(t, call)] := by simp [history]
  have hbefore : callsOf s.history t = List.range call := by
    rw [hi.sent, hhand]
    rfl
  constructor
  · intro y
    rw [hhistory, callsOf_append]
    by_cases hy : y = t
    · subst hy
      rw [hbefore]
      simp [callsOf, PostQueuePc.inHand, hi.last y call hhand, List.range_succ]
    · simp [hy, callsOf, Ne.symm hy, ← hi.sent]
  · intro y n hn
    by_cases hy : y = t
    · simp [hy, PostQueuePc.inHand] at hn
    · simp only [Function.update_of_ne hy] at hn
      exact hi.last y n hn

theorem InOrder.step (hi : InOrder s) (hc : Sends s act) (h : Move K s act s') : InOrder s' := by
  cases h with
  | call data hpc => exact hi.call data hpc
  | @msgsnd t call data hpc hroom =>
    simp only [Sends, hpc, PostQueuePc.sends] at hc
    obtain ⟨msg, hsent, -, -⟩ := msgsnd_number hc
    rw [hsent, List.map_singleton]
    exact hi.msgsnd msg (by rw [hpc]; rfl)
  | lock hpc | number hpc | increment hpc | unlock hpc =>
    exact hi.same rfl rfl fun y => map_update PostQueuePc.inHand y (by rw [hpc]; rfl)
  | get heap hqueue =>
    refine hi.same ?_ rfl fun _ => rfl
    simp [history, hqueue]

end PostQueue

-- ---------------------------------------------------------------------------
-- Every run
-- ---------------------------------------------------------------------------

section

open PostQueue

variable {θ : Type u} [DecidableEq θ] {K : Nat} {s : PostQueue θ}

theorem numbered (hr : (posting θ K).ReachesUnder Sends s) : s.Numbered :=
  hr.invariant numbered_init fun _ _ _ _ hi hc h => hi.step hc (step_move h)

theorem inOrder (hr : (posting θ K).ReachesUnder Sends s) : s.InOrder :=
  hr.invariant inOrder_init fun _ _ _ _ hi hc h => hi.step hc (step_move h)

theorem range_of_append {l l' : List Nat} {n : Nat} (h : l ++ l' = List.range n) :
    l = List.range l.length := by
  have hle : l.length ≤ n := by
    rw [← List.length_range (n := n), ← h, List.length_append]
    omega
  rw [← Nat.min_eq_left hle, ← List.take_range, ← h, List.take_left]

/-- The messages that `getMsgQueue` returned are numbered 1, 2, 3, ..., and
those of a thread are from its first calls of `postMsgQueue`, in their order. -/
theorem taken_in_order (hr : (posting θ K).ReachesUnder Sends s)
    (hfew : s.history.length < 2 ^ 31) :
    s.taken.map (fun m => m.msg.msgNumber) =
      (List.range s.taken.length).map (fun (i : Nat) => (i + 1 : Int)) ∧
    ∀ t, ∃ n, callsOf (s.taken.map fun m => (m.poster, m.call)) t = List.range n := by
  have htaken : s.taken.length ≤ s.history.length := by simp [history]
  constructor
  · rw [take_numbers, (numbered hr).numbered.consecutive, ← List.map_take, List.take_range,
      length_numbers, Nat.min_eq_left htaken]
    refine List.map_congr_left fun i hi => ?_
    have hlt := List.mem_range.mp hi
    exact wrap32_eq (by omega) (by omega)
  · intro t
    have hsent := (inOrder hr).sent t
    rw [history, callsOf_append] at hsent
    exact ⟨_, range_of_append hsent⟩

def bareMsg (msgType : MsgType) : MsgSt :=
  ⟨msgType.code, msgType.code, 0, List.replicate maxText 0, List.length_replicate⟩

def heartBeatsAndTimeout : List (PostQueueAct Nat) :=
  [.call 1 (bareMsg .receivedHeartBeat), .go 1, .go 1, .go 1, .go 1, .go 1,
    .call 1 (bareMsg .receivedHeartBeat), .go 1, .go 1, .call 0 (bareMsg .timeout), .go 1,
    .get (bareMsg .stopTimer), .go 1, .go 1, .go 0, .go 0, .go 0, .get (bareMsg .stopTimer), .go 0,
    .go 0, .get (bareMsg .stopTimer)]

theorem heartBeatsAndTimeout_in_order : ∃ s,
    (posting Nat 1).run heartBeatsAndTimeout = some s ∧
      s.taken.map (fun m => m.msg.msgNumber) = [1, 2, 3] := by
  have hrun : ((posting Nat 1).run heartBeatsAndTimeout).any
      (fun s => decide (s.taken.length = 3 ∧ s.history.length = 3)) = true := by decide
  obtain ⟨s, hs, hlen⟩ := (Option.any_eq_true _ _).mp hrun
  obtain ⟨htaken, hhistory⟩ := of_decide_eq_true hlen
  have hr : (posting Nat 1).ReachesUnder Sends s := Machine.run_reachesUnder (by decide) hs
  refine ⟨s, hs, ?_⟩
  rw [(taken_in_order hr (by rw [hhistory]; decide)).1, htaken]
  rfl

end

end DevAdapter
