import DevAdapter.CJson.RoundTrip
import DevAdapter.ClientJson.MainThread

/-!
# Switching RSSI off

When a client is stopped, `close_rssi` builds the request that switches RSSI
off, prints it and hands the text to `rssi_state_change` as if a client had sent
it. The text is parsed back to what was built, so the request goes to the rf
device and the state is cleared with the answer, whatever the answer is.
-/

namespace DevAdapter.ClientJson

open CJson

def closeTree : CJson :=
  .object [
    (bytes "dev", .string (bytes "/dev/i2c-0")),
    (bytes "addr", .string (bytes "0x4a")),
    (bytes "force", .string (bytes "0x1")),
    (bytes "type", .string (bytes "rssi")),
    (bytes "timer", .string (bytes "0")),
    (bytes "pub_no", .string (bytes "1")),
    (bytes "dst", .string (bytes "rf")),
    (bytes "op_cmd", .array [.object [
      (bytes "_comment", .string (bytes "rssi")),
      (bytes "cmd", .string (bytes "0")),
      (bytes "reg", .string (bytes "0x0a")),
      (bytes "size", .string (bytes "1"))]])]

/-- `close_rssi`; its tree is counted like one of `cJSON_Parse`. -/
def closeRssi (e : Surroundings) (printNumber : List UInt8 → List UInt8) : Handler Unit := do
  if (← get).rssiState = 0 then return
  modify fun run => { run with treesMade := run.treesMade + 1 }
  let closeRssiJsonfile := closeTree.print printNumber
  rssiStateChange e closeRssiJsonfile (cstr closeRssiJsonfile).length
  cJSONDelete (some closeTree)

variable (printNumber : List UInt8 → List UInt8)

theorem closeTree_printed :
    CJson.parse (closeTree.print printNumber) = some closeTree ∧
      cstr (closeTree.print printNumber) = closeTree.print printNumber := by
  obtain ⟨hparse, hcstr⟩ := parse_print_texts printNumber (t := closeTree)
    (by decide +kernel) (by decide +kernel) (by decide +kernel)
  rw [hcstr] at hparse
  exact ⟨hparse, hcstr⟩

theorem closeTree_dst :
    getObjectItem (some closeTree) (bytes "dst") = some (.string (bytes "rf")) := rfl

theorem closeTree_timer : memberString (some closeTree) "timer" = some (bytes "0") := by
  decide +kernel

def closeRequest : Request := ⟨some (bytes "rf"), closeTree.print printNumber⟩

theorem closeRequest_eq :
    request (closeTree.print printNumber) (cstr (closeTree.print printNumber)).length =
      closeRequest printNumber := by
  obtain ⟨hparse, hcstr⟩ := closeTree_printed printNumber
  have hdst : (CJson.string (bytes "rf")).valuestring.map cstr = some (bytes "rf") := by
    decide +kernel
  rw [request, hparse, hcstr, memberString_some closeTree_dst, hdst, Int.toNat_natCast,
    List.take_length, closeRequest]

def Closed (gReceive : Bool) (a : Answer) (run run' : Run) : Prop :=
  run'.requests = run.requests ++ [closeRequest printNumber] ∧ run'.sent = run.sent ∧
    (run'.treesMade = run.treesMade + 2 ∧ run'.treesFreed = run.treesFreed + 2) ∧
    run'.buffersGiven = run.buffersGiven + a.statBuf.isSome.toNat ∧
    ((a.Taken gReceive ∧ run'.rssiState = 0 ∧
        run'.buffersFreed = run.buffersFreed + a.statBuf.isSome.toNat) ∨
      ¬ a.Taken gReceive ∧ run'.rssiState = run.rssiState ∧ run'.buffersFreed = run.buffersFreed)

theorem closeRssi_off (e : Surroundings) {run : Run} (hoff : run.rssiState = 0) :
    (closeRssi e printNumber).run run = .ok () run := by
  unfold closeRssi
  generalize closeTree.print printNumber = text
  simp only [EStateM.run_bind, EStateM.run_get, hoff, if_true]
  rfl

theorem closeRssi_on (e : Surroundings) {run : Run} (hon : run.rssiState ≠ 0) :
    (closeRssi e printNumber).run run =
      (rssiStateChange e (closeTree.print printNumber) (cstr (closeTree.print printNumber)).length >>=
        fun _ => cJSONDelete (some closeTree)).run { run with treesMade := run.treesMade + 1 } := by
  unfold closeRssi
  generalize closeTree.print printNumber = text
  simp only [EStateM.run_bind, EStateM.run_get, hon, if_false]
  rfl

theorem closeRssi_closed (e : Surroundings) {run : Run} (hon : run.rssiState ≠ 0) :
    ∃ run', (closeRssi e printNumber).run run = .ok () run' ∧
      Closed printNumber e.gReceive (e.devTransfer (closeRequest printNumber)) run run' := by
  obtain ⟨hparse, -⟩ := closeTree_printed printNumber
  have hdst : getObjectItem (CJson.parse (closeTree.print printNumber)) (bytes "dst") =
      some (.string (bytes "rf")) := by rw [hparse, closeTree_dst]
  have hran := rssiStateChange_ran (e := e) hdst (cstr (closeTree.print printNumber)).length
    { run with treesMade := run.treesMade + 1 }
  rw [closeRequest_eq, hparse] at hran
  rw [closeRssi_on printNumber e hon, EStateM.run_bind]
  generalize EStateM.run (rssiStateChange e _ _) _ = r at hran
  cases hran with
  | idle htaken => exact ⟨_, rfl, rfl, rfl, ⟨rfl, rfl⟩, rfl, .inr ⟨htaken, rfl, rfl⟩⟩
  | taken htaken hread heffect =>
    obtain ⟨hstate, hsent⟩ := heffect
    rw [closeTree_timer, if_pos rfl] at hstate
    exact ⟨_, rfl, rfl, hsent, ⟨rfl, rfl⟩, rfl, .inl ⟨htaken, hstate, rfl⟩⟩
  | null htaken hread use =>
    refine absurd ?_ hread
    rw [Command.Readable, closeTree_timer]
    rfl

/-- Whatever answers it, `close_rssi` uses no `NULL` and sends the client nothing;
with RSSI on it makes the one request that switches RSSI off, and it leaves the
`rssi_state` of the main thread's step. -/
theorem closeRssi_follows (devTransfer : Request → Answer) (s : DevAdapter.System) :
    ∃ run, (closeRssi ⟨devTransfer, s.gReceive.isSome⟩ printNumber).run (.start s.rssiState.toInt) =
        .ok () run ∧
      run.rssiState =
        (s.closeRssi (devTransfer (closeRequest printNumber)).reply).rssiState.toInt ∧
      run.treesFreed = run.treesMade ∧ run.sent = [] ∧
      run.requests = (if s.rssiState then [closeRequest printNumber] else []) ∧
      CJson.parse (closeRequest printNumber).buf = some closeTree := by
  have hparse : CJson.parse (closeRequest printNumber).buf = some closeTree := by
    simp only [closeRequest, closeTree_printed]
  cases hstate : s.rssiState with
  | false =>
    refine ⟨_, closeRssi_off printNumber _ rfl, ?_, rfl, rfl, rfl, hparse⟩
    simp [hstate, Run.start]
  | true =>
    obtain ⟨run, hrun, hrequests, hsent, htrees, -, hend⟩ := closeRssi_closed printNumber
      ⟨devTransfer, s.gReceive.isSome⟩ (show (Run.start 1).rssiState ≠ 0 by decide)
    refine ⟨run, hrun, ?_, by rw [htrees.1, htrees.2]; rfl, hsent, hrequests, hparse⟩
    have htaken := (devTransfer (closeRequest printNumber)).taken_iff s.gReceive.isSome
    rw [Option.isSome_iff_ne_none] at htaken
    rcases hend with ⟨htrue, hzero, -⟩ | ⟨hidle, hsame, -⟩
    · rw [htaken] at htrue
      simp [hzero, hstate, htrue]
    · rw [htaken] at hidle
      simp [hsame, hstate, hidle, Run.start]

end DevAdapter.ClientJson
