import DevAdapter.Server.Genuine

/-!
# The length of a queued text

`receive` takes any length word that its comparisons let through,
`processMessage` takes 4 off it, and `postMsg` copies as many bytes as that is
as a `size_t`. The copy fits `msg_json` for the lengths from 4 to `MAX_TEXT + 4`.
-/

namespace DevAdapter

open OffsetMemory Word32 Transition

def postMsgCopied (buf : Option (Mem UInt8 × Int)) (bufLen : Int) : Nat :=
  if buf.isSome ∧ bufLen ≠ 0 then sizeT bufLen else 0

theorem postMsg_copied (msgType : Int) (m : Mem UInt8) (p bufLen : Int) (stack : MsgSt)
    (q : MsgQueue) : postMsg msgType (some (m, p)) bufLen stack q = postMsgQueue
      { msgType := msgType
        msgNumber := msgType
        msgLen := bufLen
        msgJson := copyJson stack.msgJson (m.read p (postMsgCopied (some (m, p)) bufLen))
        json_length := by rw [length_copyJson, stack.json_length] } q := by
  by_cases hzero : bufLen = 0
  · have hstale : copyJson stack.msgJson [] = stack.msgJson := by simp [copyJson]
    simp [postMsg, postMsgCopied, hzero, hstale]
  · simp [postMsg, postMsgCopied, hzero]

/-- The copy lies inside `msg_json` and is as long as `msg_len` says. -/
structure TextFits (buf : Option (Mem UInt8 × Int)) (bufLen : Int) : Prop where
  le_maxText : postMsgCopied buf bufLen ≤ maxText
  eq_msgLen : (postMsgCopied buf bufLen : Int) = bufLen

theorem textFits_iff {buf : Mem UInt8 × Int} {bufLen : Int} :
    TextFits (some buf) bufLen ↔ 0 ≤ bufLen ∧ bufLen ≤ maxText := by
  have hcopied : postMsgCopied (some buf) bufLen = sizeT bufLen := by
    by_cases hzero : bufLen = 0
    · subst hzero
      rfl
    · exact if_pos ⟨rfl, hzero⟩
  rw [iff_def, and_comm]
  refine ⟨fun ⟨hlow, hhigh⟩ => ?_, fun ⟨hle, heq⟩ => ?_⟩
  · have hsize : (sizeT bufLen : Int) = bufLen := by
      unfold sizeT maxText at *
      omega
    exact ⟨by rw [hcopied]; omega, by rw [hcopied]; exact hsize⟩
  · omega

theorem textFits_none : TextFits none 0 := ⟨by decide, rfl⟩

theorem processMessage_text {m : Mem UInt8} {buf length : Int}
    (h : myNtohl m (buf + 4) = 1 ∨ myNtohl m (buf + 4) = 2) :
    ∃ msgType, processMessage m buf length = some (msgType, some (m, buf + 4 + 4), length - 4) := by
  rcases h with htype | htype
  · exact ⟨.inquiryState, by simp [processMessage, htype]⟩
  · exact ⟨.rssiStateChange, by simp [processMessage, htype]⟩

theorem processMessage_noText {m : Mem UInt8} {buf length : Int}
    (h : ¬ (myNtohl m (buf + 4) = 1 ∨ myNtohl m (buf + 4) = 2))
    (hpost : processMessage m buf length = some post) : post.2 = (none, 0) := by
  obtain ⟨h1, h2⟩ := not_or.mp h
  simp only [processMessage, if_neg h1, if_neg h2] at hpost
  split_ifs at hpost <;>
  · obtain rfl := Option.some.inj hpost
    rfl

theorem processMessage_textFits {m : Mem UInt8} {buf length : Int} :
    (∀ post ∈ processMessage m buf length, TextFits post.2.1 post.2.2) ↔
      (myNtohl m (buf + 4) = 1 ∨ myNtohl m (buf + 4) = 2 → 4 ≤ length ∧ length ≤ maxText + 4) := by
  by_cases htype : myNtohl m (buf + 4) = 1 ∨ myNtohl m (buf + 4) = 2
  · obtain ⟨msgType, hpost⟩ : ∃ msgType, processMessage m buf length =
        some (msgType, some (m, buf + 4 + 4), length - 4) := processMessage_text htype
    simp only [hpost, Option.mem_some_iff, forall_eq', textFits_iff, htype, true_imp_iff]
    omega
  · refine ⟨fun _ h => absurd h htype, fun _ post hpost => ?_⟩
    rw [processMessage_noText htype hpost]
    exact textFits_none

namespace Receiver

/-- The call of `processMessage` that a pass of the loop makes, by its arguments. -/
def dispatched (s : Receiver) : Option (Int × Int) :=
  s.loop.bind fun l =>
    match iterate s.buf.recvbuf l with
    | .save => none
    | .dispatch messageLength _ => some (l.pStart, messageLength)

def CopyFits (s : Receiver) : ReceiveAct → Prop
  | .recv _ => True
  | .pass => ∀ call ∈ s.dispatched, ∀ post ∈ processMessage s.buf.recvbuf call.1 call.2,
      TextFits post.2.1 post.2.2

/-- The frame of a pass with a text has a length from 4 to `MAX_TEXT + 4`. -/
def TextLengths (s : Receiver) : ReceiveAct → Prop
  | .recv _ => True
  | .pass => ∀ call ∈ s.dispatched,
      myNtohl s.buf.recvbuf (call.1 + 4) = 1 ∨ myNtohl s.buf.recvbuf (call.1 + 4) = 2 →
        4 ≤ call.2 ∧ call.2 ≤ maxText + 4

instance (s : Receiver) : (act : ReceiveAct) → Decidable (TextLengths s act)
  | .recv _ => isTrue trivial
  | .pass => inferInstanceAs (Decidable (∀ call ∈ s.dispatched, _))

theorem copyFits_iff (s : Receiver) (act : ReceiveAct) : CopyFits s act ↔ TextLengths s act := by
  cases act with
  | recv => exact Iff.rfl
  | pass => exact forall₂_congr fun _ _ => processMessage_textFits

/-- In a run, every copy that a dispatched frame leads to fits if and only if
every dispatched frame with a text has a length from 4 to `MAX_TEXT + 4`. -/
theorem copy_fits_iff (recvbuf : Mem UInt8) (as : List ReceiveAct) :
    (receiver recvbuf).Along CopyFits (receiver recvbuf).init as ↔
      (receiver recvbuf).Along TextLengths (receiver recvbuf).init as :=
  Machine.along_congr copyFits_iff

theorem emptyText_misfits : ¬ ∀ recvbuf as, (receiver recvbuf).Along CopyFits
    (receiver recvbuf).init as := by
  intro h
  have hrun := (Machine.along_congr copyFits_iff).mp
    (h (fun _ => 0) [.recv [0, 0, 0, 0, 1, 0, 0, 0], .pass])
  revert hrun
  decide +kernel

end Receiver

end DevAdapter
