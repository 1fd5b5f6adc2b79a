import DevAdapter.ClientJson.Handlers
import DevAdapter.System.Step

/-!
# Commands among the other threads

A step of the main thread takes what a handler reads out of a payload as given:
whether an answer came and how long it is, whether its destination is one that
answers are sent on for, and what `"timer"` says. Here these are read off the
text and the answer, for the runs that use no `NULL`.
-/

namespace DevAdapter.ClientJson

open CJson

def Answer.reply (a : Answer) : Option Nat := if a.ret = 0 then some a.statBufLen.toNat else none

theorem Answer.taken_iff (a : Answer) (gReceive : Bool) :
    a.Taken gReceive ↔ a.reply.any (0 < ·) = true ∧ gReceive = true := by
  by_cases hret : a.ret = 0
  · simp [Answer.Taken, Answer.reply, hret]
  · simp [Answer.Taken, Answer.reply, hret]

theorem Handled.ran {cmd : Command} {e : Surroundings} {buf : List UInt8} {bufLen : Int}
    (h : Handled cmd e buf bufLen) (run : Run) :
    ∃ run', (cmd.handle e buf bufLen).run run = .ok () run' ∧
      Ran cmd (CJson.parse buf) (request buf bufLen) (e.devTransfer (request buf bufLen)) e.gReceive
        run () (.ok () run') := by
  obtain ⟨item, hitem⟩ := Option.isSome_iff_exists.mp h.dst
  have hran := handle_ran cmd (e := e) hitem bufLen run
  generalize (cmd.handle e buf bufLen).run run = r at hran ⊢
  cases r with
  | ok _ run' => exact ⟨run', rfl, hran⟩
  | error use run' =>
    cases hran with
    | null htaken hread => exact absurd (h.read htaken) hread

/-- `rssi_state_change` leaves the `rssi_state` of the main thread's step; the
answer counts for the rf device if the request went there. -/
theorem rssi_follows {e : Surroundings} {buf : List UInt8} {bufLen : Int}
    (h : Handled .rssi e buf bufLen) (s : DevAdapter.System)
    (hrecv : e.gReceive = s.gReceive.isSome) :
    ∃ run, (Command.rssi.handle e buf bufLen).run (.start s.rssiState.toInt) = .ok () run ∧
      run.requests = [request buf bufLen] ∧
      run.rssiState = (s.rssiStateChange (e.devTransfer (request buf bufLen)).reply
        ((request buf bufLen).dst = some (bytes "rf"))
        (memberString (CJson.parse buf) "timer" ≠ some (bytes "0"))).rssiState.toInt := by
  obtain ⟨run, hrun, hran⟩ := h.ran (.start s.rssiState.toInt)
  refine ⟨run, hrun, ?_⟩
  have htaken := (e.devTransfer (request buf bufLen)).taken_iff e.gReceive
  rw [hrecv, Option.isSome_iff_ne_none] at htaken
  cases hran with
  | idle hidle =>
    rw [hrecv, htaken] at hidle
    exact ⟨rfl, by simp [Run.start, hidle]⟩
  | taken htrue hread heffect =>
    rw [hrecv, htaken] at htrue
    refine ⟨rfl, ?_⟩
    rw [heffect.1]
    by_cases hzero : memberString (CJson.parse buf) "timer" = some (bytes "0")
    · simp [htrue, hzero]
    · simp [htrue, hzero]

/-- `inquiry_state_from` sends an answer on when the main thread's step does. -/
theorem inquiry_follows {e : Surroundings} {buf : List UInt8} {bufLen : Int}
    (h : Handled .inquiry e buf bufLen) {s : DevAdapter.System} {gReceive : Option Nat}
    (hmain : s.main = .inquiry gReceive) (hrecv : e.gReceive = gReceive.isSome)
    (frame : List UInt8) (rssiState : Int) :
    ∃ run, (Command.inquiry.handle e buf bufLen).run (.start rssiState) = .ok () run ∧
      s.mainStep {
          reply := (e.devTransfer (request buf bufLen)).reply
          forwarded :=
            ((memberString (CJson.parse buf) "dst").bind (forwarded (CJson.parse buf))).isSome
          frame := frame } =
        some (if run.sent = [] then s.goto .idle
          else (s.setSnd .main (.enter frame)).goto .sending) := by
  obtain ⟨run, hrun, hran⟩ := h.ran (.start rssiState)
  refine ⟨run, hrun, ?_⟩
  have htaken := (e.devTransfer (request buf bufLen)).taken_iff e.gReceive
  rw [hrecv, Option.isSome_iff_ne_none] at htaken
  simp only [System.mainStep, hmain]
  cases hran with
  | idle hidle =>
    rw [hrecv, htaken] at hidle
    rw [if_neg fun hsend => hidle ⟨hsend.1, hsend.2.2⟩]
    simp [Run.start]
  | taken htrue hread heffect =>
    rw [hrecv, htaken] at htrue
    rw [heffect.2]
    cases hforward : (memberString (CJson.parse buf) "dst").bind (forwarded (CJson.parse buf)) with
    | none => simp [Run.start]
    | some type => simp [Run.start, htrue]

end DevAdapter.ClientJson
