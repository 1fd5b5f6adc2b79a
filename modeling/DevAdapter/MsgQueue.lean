import DevAdapter.Lib.Memory
import DevAdapter.Lib.Word

/-!
# The System V message queue

`struct msg_st` is `mtype`, two ints and `MAX_TEXT` bytes of text. The kernel
is handed `MAX_TEXT` bytes from behind `mtype` and gives as many back, into a
struct fresh from `malloc`. Memory the source leaves uninitialised is an
argument: the stack struct of `postMsg` and the heap struct of `getMsgQueue`.
-/

namespace DevAdapter

open OffsetMemory Word32

inductive MsgType
  | acceptNewClient
  | inquiryState
  | receivedHeartBeat
  | rssiStateChange
  | startCsi
  | stopCsi
  | startConstellation
  | stopConstellation
  | rfMfState
  | receiveThreadClosed
  | timeout
  | stopTimer
  deriving DecidableEq, Repr

def MsgType.code : MsgType → Int
  | .acceptNewClient => 10
  | .inquiryState => 11
  | .receivedHeartBeat => 12
  | .rssiStateChange => 13
  | .startCsi => 14
  | .stopCsi => 15
  | .startConstellation => 16
  | .stopConstellation => 17
  | .rfMfState => 18
  | .receiveThreadClosed => 19
  | .timeout => 20
  | .stopTimer => 21

def maxText : Nat := 2048

structure MsgSt where
  msgType : Int
  msgNumber : Int
  msgLen : Int
  msgJson : List UInt8
  json_length : msgJson.length = maxText

def MsgSt.text (d : MsgSt) : List UInt8 := le32 d.msgNumber ++ le32 d.msgLen ++ d.msgJson

@[simp] theorem MsgSt.length_text (d : MsgSt) : d.text.length = maxText + 8 := by
  simp only [MsgSt.text, List.length_append, length_le32, d.json_length]
  omega

def MsgSt.ofText (msgType : Int) (text : List UInt8) (h : text.length = maxText + 8) : MsgSt where
  msgType := msgType
  msgNumber := ofLe32 (text.take 4)
  msgLen := ofLe32 ((text.drop 4).take 4)
  msgJson := text.drop 8
  json_length := by simp [h]

-- ---------------------------------------------------------------------------
-- The kernel queue
-- ---------------------------------------------------------------------------

structure KernelMsg where
  mtype : Int
  mtext : List UInt8
  deriving Repr

structure MsgQueue where
  seqId : Int
  msgs : List KernelMsg

/-- `msgsnd(.., msgsz, 0)` on a queue with room; `none` is the result -1, which
the kernel gives for an `mtype` that is not positive. -/
def msgsnd (msgs : List KernelMsg) (d : MsgSt) (msgsz : Nat) : Option (List KernelMsg) :=
  if 0 < d.msgType then some (msgs ++ [⟨d.msgType, d.text.take msgsz⟩]) else none

/-- `msgrcv(.., msgsz, 0, 0)`: the `mtype` and the bytes it stores behind it,
of the first message. -/
def msgrcv (msgs : List KernelMsg) (msgsz : Nat) : Option (KernelMsg × List KernelMsg) :=
  match msgs with
  | [] => none
  | k :: ks => some (⟨k.mtype, k.mtext.take msgsz⟩, ks)

def postMsgQueue (data : MsgSt) (q : MsgQueue) : MsgQueue :=
  let data := { data with msgNumber := q.seqId }
  { seqId := wrap32 (q.seqId + 1), msgs := (msgsnd q.msgs data maxText).getD q.msgs }

/-- The number of bytes `memcpy` copies for an `int` length. -/
def sizeT (n : Int) : Nat := (n % 2 ^ 32).toNat

theorem cast_sizeT (n : Int) : (sizeT n : Int) = n % 2 ^ 32 := by
  unfold sizeT
  omega

theorem sizeT_of_nonneg {n : Int} (h : 0 ≤ n) (hlt : n < 2 ^ 31) : sizeT n = n.toNat := by
  unfold sizeT
  omega

/-- `memcpy(data.msg_json, buf, n)`, as far as it lands in `msg_json`. -/
def copyJson (stale : List UInt8) (bytes : List UInt8) : List UInt8 :=
  (bytes ++ stale.drop bytes.length).take stale.length

@[simp] theorem length_copyJson (stale bytes : List UInt8) :
    (copyJson stale bytes).length = stale.length := by
  simp only [copyJson, List.length_take, List.length_append, List.length_drop]
  omega

theorem take_copyJson {stale bytes : List UInt8} (hpre : bytes.take n <+: stale)
    (hn : n ≤ stale.length) : (copyJson stale bytes).take n = stale.take n := by
  rw [copyJson, List.take_take, Nat.min_eq_left hn]
  rcases Nat.le_total bytes.length n with hle | hle
  · rw [List.take_of_length_le hle] at hpre
    obtain ⟨r, rfl⟩ := hpre
    rw [List.drop_left]
  · rw [List.take_append_of_le_length hle]
    have hlen : (bytes.take n).length = n := List.length_take_of_le hle
    rw [List.prefix_iff_eq_take.mp hpre, hlen]

/-- `buf` is a pointer into a memory, or `NULL`; `stack` is what the
uninitialised `struct msg_st data` holds. -/
def postMsg (msgType : Int) (buf : Option (Mem UInt8 × Int)) (bufLen : Int) (stack : MsgSt)
    (q : MsgQueue) : MsgQueue :=
  let json := match buf with
    | some (m, p) => if bufLen ≠ 0 then copyJson stack.msgJson (m.read p (sizeT bufLen)) else stack.msgJson
    | none => stack.msgJson
  postMsgQueue
    { msgType := msgType
      msgNumber := msgType
      msgLen := bufLen
      msgJson := json
      json_length := by
        simp only [json]
        split
        · split <;> simp [stack.json_length]
        · exact stack.json_length } q

/-- The struct `out` after `received` was stored at its start. -/
def MsgSt.overlay (out : MsgSt) (received : KernelMsg) : MsgSt :=
  .ofText received.mtype ((received.mtext ++ out.text.drop received.mtext.length).take (maxText + 8)) (by
    simp only [List.length_take, List.length_append, List.length_drop, MsgSt.length_text]
    omega)

@[simp] theorem MsgSt.overlay_msgType (out : MsgSt) (received : KernelMsg) :
    (out.overlay received).msgType = received.mtype := rfl

/-- `heap` is what the struct from `malloc` holds. -/
def getMsgQueue (heap : MsgSt) (q : MsgQueue) : Option (MsgSt × MsgQueue) :=
  (msgrcv q.msgs maxText).map fun (received, msgs) => (heap.overlay received, { q with msgs })

-- ---------------------------------------------------------------------------
-- What arrives
-- ---------------------------------------------------------------------------

/-- The text bytes that fit behind the two ints in what `msgsnd` is handed. -/
def textSent : Nat := maxText - 8

theorem take_text (d : MsgSt) :
    d.text.take maxText = le32 d.msgNumber ++ le32 d.msgLen ++ d.msgJson.take textSent := by
  have hle : (le32 d.msgNumber ++ le32 d.msgLen).length ≤ maxText := by simp [maxText]
  rw [MsgSt.text, List.take_append, List.take_of_length_le hle]
  simp [textSent]

theorem take_take_maxText (text : List UInt8) : (text.take maxText).take maxText = text.take maxText := by
  rw [List.take_take, Nat.min_self]

@[simp] theorem length_take_textSent (d : MsgSt) : (d.msgJson.take textSent).length = textSent := by
  simp [d.json_length, textSent]

theorem drop_text (d : MsgSt) : d.text.drop maxText = d.msgJson.drop textSent := by
  have hle : (le32 d.msgNumber ++ le32 d.msgLen).length ≤ maxText := by simp [maxText]
  rw [MsgSt.text, List.drop_append, List.drop_of_length_le hle]
  simp [textSent]

theorem overlay_bytes (d heap : MsgSt) :
    (d.text.take maxText ++ heap.text.drop (d.text.take maxText).length).take (maxText + 8) =
      le32 d.msgNumber ++ le32 d.msgLen ++
        (d.msgJson.take textSent ++ heap.msgJson.drop textSent) := by
  have hlen : (d.text.take maxText).length = maxText := by simp
  rw [hlen, drop_text, List.take_of_length_le, take_text, List.append_assoc]
  simp [heap.json_length, textSent, maxText]

/-- What `getMsgQueue` returns for a struct that `postMsgQueue` sent: the text
from `textSent` on is that of the fresh struct. -/
theorem overlay_sent (d heap : MsgSt) :
    (heap.overlay ⟨d.msgType, d.text.take maxText⟩).msgType = d.msgType ∧
    (heap.overlay ⟨d.msgType, d.text.take maxText⟩).msgLen = wrap32 d.msgLen ∧
    (heap.overlay ⟨d.msgType, d.text.take maxText⟩).msgJson =
      d.msgJson.take textSent ++ heap.msgJson.drop textSent := by
  refine ⟨?_, ?_, ?_⟩
  · rw [MsgSt.overlay_msgType]
  · simp only [MsgSt.overlay, MsgSt.ofText, overlay_bytes, List.append_assoc]
    rw [List.drop_left' (length_le32 _), List.take_left' (length_le32 _), ofLe32_le32]
  · have h8 : (le32 d.msgNumber ++ le32 d.msgLen).length = 8 := by simp
    simp only [MsgSt.overlay, MsgSt.ofText, overlay_bytes]
    rw [List.drop_left' h8]

-- ---------------------------------------------------------------------------
-- A queue in use
-- ---------------------------------------------------------------------------

inductive QueueOp
  | post (msgType : Int) (buf : Option (Mem UInt8 × Int)) (bufLen : Int) (stack : MsgSt)
  | get (heap : MsgSt)

/-- What the `getMsgQueue` calls of a sequence return; a call on an empty
queue blocks and returns nothing. -/
def returned : MsgQueue → List QueueOp → List MsgSt
  | _, [] => []
  | q, .post msgType buf bufLen stack :: ops => returned (postMsg msgType buf bufLen stack q) ops
  | q, .get heap :: ops =>
    match getMsgQueue heap q with
    | none => returned q ops
    | some (d, q') => d :: returned q' ops

theorem postMsgQueue_msgs (d : MsgSt) (q : MsgQueue) : q.msgs <+: (postMsgQueue d q).msgs := by
  by_cases h : 0 < d.msgType
  · simp [postMsgQueue, msgsnd, h]
  · simp [postMsgQueue, msgsnd, h]

theorem postMsg_msgs (msgType : Int) (buf : Option (Mem UInt8 × Int)) (bufLen : Int)
    (stack : MsgSt) (q : MsgQueue) : q.msgs <+: (postMsg msgType buf bufLen stack q).msgs :=
  postMsgQueue_msgs _ q

/-- The queue is first in, first out: the `i`-th struct returned is what the
`i`-th message gives, whatever is posted in between. -/
theorem returned_eq_overlay {q : MsgQueue} {ops : List QueueOp} {i : Nat} {k : KernelMsg} {d : MsgSt}
    (hk : q.msgs[i]? = some k) (hd : (returned q ops)[i]? = some d) :
    ∃ heap : MsgSt, d = heap.overlay ⟨k.mtype, k.mtext.take maxText⟩ := by
  induction ops generalizing q i with
  | nil => simp [returned] at hd
  | cons op ops ih =>
    cases op with
    | post msgType buf bufLen stack =>
      obtain ⟨l, hl⟩ := postMsg_msgs msgType buf bufLen stack q
      have hi : i < q.msgs.length := (List.getElem?_eq_some_iff.mp hk).1
      refine ih ?_ hd
      rw [← hl, List.getElem?_append_left hi, hk]
    | get heap =>
      cases hq : q.msgs with
      | nil => simp [hq] at hk
      | cons k' ks =>
        simp only [returned, getMsgQueue, msgrcv, hq, Option.map_some] at hd
        cases i with
        | zero =>
          obtain rfl : k' = k := by simpa [hq] using hk
          exact ⟨heap, (by simpa using hd.symm)⟩
        | succ i =>
          have hks : ks[i]? = some k := by simpa [hq] using hk
          exact ih (q := { q with msgs := ks }) hks (by simpa using hd)

-- ---------------------------------------------------------------------------
-- What survives
-- ---------------------------------------------------------------------------

/-- The struct that `getMsgQueue` returns for a `postMsg` has its type, its
length and its payload, whatever the queue holds, whatever is posted and taken
later, and whatever the two uninitialised structs hold. -/
def Survives (msgType : Int) (m : Mem UInt8) (buf : Int) (len : Nat) : Prop :=
  ∀ (q : MsgQueue) (stack : MsgSt) (ops : List QueueOp) (d : MsgSt),
    (returned (postMsg msgType (some (m, buf)) len stack q) ops)[q.msgs.length]? = some d →
      d.msgType = msgType ∧ d.msgLen = len ∧ d.msgJson.take len = m.read buf len

theorem postMsg_sends (m : Mem UInt8) (buf : Int) {msgType : Int} {len : Nat} (stack : MsgSt)
    (q : MsgQueue) (ht : 0 < msgType) (hlen : len ≤ maxText) :
    ∃ d : MsgSt, (postMsg msgType (some (m, buf)) len stack q).msgs =
        q.msgs ++ [⟨d.msgType, d.text.take maxText⟩] ∧
      d.msgType = msgType ∧ d.msgLen = len ∧
      d.msgJson = copyJson stack.msgJson (m.read buf len) := by
  have hsize : sizeT len = len := by unfold sizeT maxText at *; omega
  by_cases h0 : len = 0
  · subst h0
    refine ⟨{ stack with msgType := msgType, msgNumber := q.seqId, msgLen := 0 }, ?_, rfl, rfl, ?_⟩
    · simp [postMsg, postMsgQueue, msgsnd, ht]
    · simp [copyJson]
  · refine ⟨⟨msgType, q.seqId, len, copyJson stack.msgJson (m.read buf len), ?_⟩, ?_, rfl, rfl, rfl⟩
    · simp [stack.json_length]
    · simp [postMsg, postMsgQueue, msgsnd, ht, h0, hsize]

theorem postMsg_appends (m : Mem UInt8) (buf : Int) {msgType : Int} {len : Nat} (stack : MsgSt)
    (q : MsgQueue) (ht : 0 < msgType) (hlen : len ≤ maxText) :
    ∃ d : MsgSt, (postMsg msgType (some (m, buf)) len stack q).msgs =
        q.msgs ++ [⟨d.msgType, d.text.take maxText⟩] ∧
      d.msgType = msgType ∧ d.msgLen = len ∧ d.msgJson.take len = m.read buf len := by
  obtain ⟨d, hmsgs, htype, hlength, hjson⟩ := postMsg_sends m buf stack q ht hlen
  refine ⟨d, hmsgs, htype, hlength, ?_⟩
  rw [hjson, copyJson, stack.json_length, List.take_take, Nat.min_eq_left hlen]
  simp

theorem survives_of_le (m : Mem UInt8) (buf : Int) {msgType : Int} {len : Nat} (ht : 0 < msgType)
    (hlen : len ≤ textSent) : Survives msgType m buf len := by
  intro q stack ops d hd
  have hmax : len ≤ maxText := Nat.le_trans hlen (Nat.sub_le _ _)
  obtain ⟨sent, hmsgs, htype, hlength, hjson⟩ := postMsg_appends m buf stack q ht hmax
  have hk : (postMsg msgType (some (m, buf)) len stack q).msgs[q.msgs.length]? =
      some ⟨sent.msgType, sent.text.take maxText⟩ := by
    rw [hmsgs, List.getElem?_concat_length]
  obtain ⟨heap, rfl⟩ := returned_eq_overlay hk hd
  obtain ⟨h1, h2, h3⟩ := overlay_sent sent heap
  simp only [take_take_maxText]
  refine ⟨h1.trans htype, ?_, ?_⟩
  · rw [h2, hlength]
    exact wrap32_eq (by omega) (by unfold maxText at hmax; omega)
  · rw [h3, List.take_append_of_le_length (by rwa [length_take_textSent]), List.take_take,
      Nat.min_eq_left hlen, hjson]

/-- Past `textSent` a payload ends in whatever the fresh struct held: one
message and one `getMsgQueue` show it. -/
theorem not_survives_of_lt (m : Mem UInt8) (buf : Int) {msgType : Int} {len : Nat}
    (ht : 0 < msgType) (hmax : len ≤ maxText) (hlen : textSent < len) :
    ¬ Survives msgType m buf len := by
  intro h
  let stack : MsgSt := ⟨0, 0, 0, List.replicate maxText 0, List.length_replicate⟩
  let heap : MsgSt := ⟨0, 0, 0, List.replicate maxText (m (buf + textSent) + 1), List.length_replicate⟩
  obtain ⟨sent, hmsgs, -, -, -⟩ := postMsg_appends m buf stack ⟨1, []⟩ ht hmax
  have hret : (returned (postMsg msgType (some (m, buf)) len stack ⟨1, []⟩) [.get heap])[0]? =
      some (heap.overlay ⟨sent.msgType, sent.text.take maxText⟩) := by
    simp only [returned, getMsgQueue, msgrcv, hmsgs, List.nil_append, Option.map_some,
      take_take_maxText]
    rfl
  have hjson := (h ⟨1, []⟩ stack [.get heap] _ hret).2.2
  rw [(overlay_sent sent heap).2.2] at hjson
  have hbyte := congrArg (·[textSent]?) hjson
  have hroom : textSent < maxText := by decide
  have hheap : heap.msgJson[textSent]? = some (m (buf + textSent) + 1) := by
    simp [heap, hroom]
  simp only [List.getElem?_take_of_lt hlen, getElem?_read m buf hlen] at hbyte
  rw [List.getElem?_append_right (Nat.le_of_eq (length_take_textSent sent)), length_take_textSent, Nat.sub_self,
    List.getElem?_drop, Nat.add_zero, hheap] at hbyte
  simp at hbyte

/-- A payload survives the queue exactly up to `MAX_TEXT - 8` bytes: the two
ints of the struct take part of the `MAX_TEXT` bytes `msgsnd` transfers. -/
theorem message_survives_iff (m : Mem UInt8) (buf : Int) {msgType : Int} {len : Nat}
    (ht : 0 < msgType) (hmax : len ≤ maxText) :
    Survives msgType m buf len ↔ len ≤ maxText - 8 := by
  constructor
  · intro h
    rcases Nat.lt_or_ge textSent len with hlt | hle
    · exact absurd h (not_survives_of_lt m buf ht hmax hlt)
    · exact hle
  · exact survives_of_le m buf ht

theorem inquiry_of_2040_survives : Survives MsgType.inquiryState.code (fun _ => 123) 0 2040 :=
  (message_survives_iff _ _ (by decide) (by decide)).mpr (by decide)

theorem long_inquiry_truncated :
    ¬ Survives MsgType.inquiryState.code (fun _ => 123) 0 2041 :=
  not_survives_of_lt _ _ (by decide) (by decide) (by decide)

end DevAdapter
