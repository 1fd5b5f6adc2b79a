import DevAdapter.CJson.Parse

/-!
# Commands from the client

`inquiry_state_from` and `rssi_state_change` read the destination of a request
out of the client's text, hand the text to `dev_transfer` and look into the text
once more when an answer has come. A use of `NULL` ends a run. The trees and the
response buffers that a run is given are counted, and those that it frees.
-/

namespace DevAdapter.ClientJson

open CJson

structure Request where
  dst : Option (List UInt8)
  buf : List UInt8
  deriving DecidableEq, Repr

structure Answer where
  ret : Int
  outBuf : Option (List UInt8)
  outBufLen : Int

def Answer.statBuf (a : Answer) : Option (List UInt8) := if a.ret = 0 then a.outBuf else none

def Answer.statBufLen (a : Answer) : Int := if a.ret = 0 then a.outBufLen else 0

structure StateInquiry where
  statBuf : Option (List UInt8)
  statBufLen : Int
  type : Int
  deriving DecidableEq, Repr

inductive NullUse
  -- a member of a `NULL` item
  | item
  -- a `NULL` string given to `strcmp`
  | string
  deriving DecidableEq, Repr

structure Run where
  rssiState : Int
  requests : List Request
  sent : List StateInquiry
  -- the trees of `cJSON_Parse` and the buffers of `dev_transfer`
  treesMade : Nat
  buffersGiven : Nat
  treesFreed : Nat
  buffersFreed : Nat
  deriving DecidableEq, Repr

def Run.start (rssiState : Int) : Run where
  rssiState := rssiState
  requests := []
  sent := []
  treesMade := 0
  buffersGiven := 0
  treesFreed := 0
  buffersFreed := 0

abbrev Handler := EStateM NullUse Run

/-- What answers a request, and whether `g_receive` is set. -/
structure Surroundings where
  devTransfer : Request → Answer
  gReceive : Bool

def cJSONParse (buf : List UInt8) : Handler (Option CJson) := do
  let root := CJson.parse buf
  modify fun run => { run with treesMade := run.treesMade + root.isSome.toNat }
  return root

def valuestringOf : Option CJson → Handler (Option (List UInt8))
  | some item => pure item.valuestring
  | none => throw .item

def strcmpEq (s : Option (List UInt8)) (literal : String) : Handler Bool :=
  match s with
  | some text => pure (cstr text = bytes literal)
  | none => throw .string

def devTransfer (e : Surroundings) (r : Request) : Handler Answer := do
  let a := e.devTransfer r
  modify fun run => { run with
    requests := run.requests ++ [r], buffersGiven := run.buffersGiven + a.statBuf.isSome.toNat }
  return a

def sendStateInquiry (statBuf : Option (List UInt8)) (statBufLen type : Int) : Handler Unit :=
  modify fun run => { run with sent := run.sent ++ [⟨statBuf, statBufLen, type⟩] }

def freeBuf (statBuf : Option (List UInt8)) : Handler Unit :=
  modify fun run => { run with buffersFreed := run.buffersFreed + statBuf.isSome.toNat }

def cJSONDelete (root : Option CJson) : Handler Unit :=
  modify fun run => { run with treesFreed := run.treesFreed + root.isSome.toNat }

/-- `buf` is what lies from the pointer on, up to the first NUL at least. -/
def inquiryStateFrom (e : Surroundings) (buf : List UInt8) (bufLen : Int) : Handler Int := do
  let root ← cJSONParse buf
  let item := getObjectItem root (bytes "dst")
  let dst ← valuestringOf item
  let a ← devTransfer e ⟨dst.map cstr, buf.take bufLen.toNat⟩
  let itemType := getObjectItem root (bytes "gw_type")
  if a.ret = 0 ∧ 0 < a.statBufLen ∧ e.gReceive then
    if ← strcmpEq (← valuestringOf item) "mon" then
      sendStateInquiry a.statBuf (a.statBufLen + 1) 41
    else if ← strcmpEq (← valuestringOf item) "gpio" then
      sendStateInquiry a.statBuf (a.statBufLen + 1) 51
    else if ← strcmpEq (← valuestringOf item) "reg" then
      let type := if ← strcmpEq (← valuestringOf itemType) "fpga" then 32 else 31
      sendStateInquiry a.statBuf (a.statBufLen + 1) type
    freeBuf a.statBuf
  cJSONDelete root
  return a.ret

def rssiStateChange (e : Surroundings) (buf : List UInt8) (bufLen : Int) : Handler Unit := do
  let root ← cJSONParse buf
  let item := getObjectItem root (bytes "dst")
  let dst ← valuestringOf item
  let a ← devTransfer e ⟨dst.map cstr, buf.take bufLen.toNat⟩
  if a.ret = 0 ∧ 0 < a.statBufLen ∧ e.gReceive then
    let item := getObjectItem root (bytes "timer")
    if ← strcmpEq (← valuestringOf item) "0" then
      modify fun run => { run with rssiState := 0 }
    else
      modify fun run => { run with rssiState := 1 }
    freeBuf a.statBuf
  cJSONDelete root

/-- A frame of type 1 or 2. -/
inductive Command
  | inquiry
  | rssi
  deriving DecidableEq, Repr

/-- What `eventLoop` does for it. -/
def Command.handle (cmd : Command) (e : Surroundings) (buf : List UInt8) (bufLen : Int) :
    Handler Unit :=
  match cmd with
  | .inquiry => do let _ ← inquiryStateFrom e buf bufLen
  | .rssi => rssiStateChange e buf bufLen

-- ---------------------------------------------------------------------------
-- What a run does
-- ---------------------------------------------------------------------------

/-- The text of a member, if it is there and a string. -/
def memberString (root : Option CJson) (name : String) : Option (List UInt8) :=
  ((getObjectItem root (bytes name)).bind valuestring).map cstr

def request (buf : List UInt8) (bufLen : Int) : Request :=
  ⟨memberString (CJson.parse buf) "dst", buf.take bufLen.toNat⟩

/-- The answer is looked at. -/
def Answer.Taken (a : Answer) (gReceive : Bool) : Prop :=
  a.ret = 0 ∧ 0 < a.statBufLen ∧ gReceive = true

/-- What a command reads once an answer is taken are strings. -/
def Command.Readable (root : Option CJson) : Command → Prop
  | .inquiry => ∃ dst, memberString root "dst" = some dst ∧
      (dst = bytes "reg" → (memberString root "gw_type").isSome = true)
  | .rssi => (memberString root "timer").isSome = true

/-- The type of the frame in which an answer is sent on. -/
def forwarded (root : Option CJson) (dst : List UInt8) : Option Int :=
  if dst = bytes "mon" then some 41
  else if dst = bytes "gpio" then some 51
  else if dst = bytes "reg" then
    some (if memberString root "gw_type" = some (bytes "fpga") then 32 else 31)
  else none

def Command.Effect (root : Option CJson) (a : Answer) (run : Run) :
    Command → Int → List StateInquiry → Prop
  | .inquiry, rssiState, sent => rssiState = run.rssiState ∧
      sent = run.sent ++ (((memberString root "dst").bind (forwarded root)).map fun type =>
        ⟨a.statBuf, a.statBufLen + 1, type⟩).toList
  | .rssi, rssiState, sent =>
      rssiState = (if memberString root "timer" = some (bytes "0") then 0 else 1) ∧ sent = run.sent

/-- The runs for a text with a destination: after the request nothing more
happens, or the answer is taken, or a `NULL` is used. -/
inductive Ran (cmd : Command) (root : Option CJson) (q : Request) (a : Answer) (gReceive : Bool)
    (run : Run) (v : α) : EStateM.Result NullUse Run α → Prop
  | idle (htaken : ¬ a.Taken gReceive) :
    Ran cmd root q a gReceive run v (.ok v { run with
      requests := run.requests ++ [q]
      treesMade := run.treesMade + root.isSome.toNat
      buffersGiven := run.buffersGiven + a.statBuf.isSome.toNat
      treesFreed := run.treesFreed + root.isSome.toNat })
  | taken (htaken : a.Taken gReceive) (hread : cmd.Readable root) {rssiState : Int}
      {sent : List StateInquiry} (heffect : cmd.Effect root a run rssiState sent) :
    Ran cmd root q a gReceive run v (.ok v
      ⟨rssiState, run.requests ++ [q], sent, run.treesMade + root.isSome.toNat,
        run.buffersGiven + a.statBuf.isSome.toNat, run.treesFreed + root.isSome.toNat,
        run.buffersFreed + a.statBuf.isSome.toNat⟩)
  | null (htaken : a.Taken gReceive) (hread : ¬ cmd.Readable root) (use : NullUse) :
    Ran cmd root q a gReceive run v (.error use { run with
      requests := run.requests ++ [q]
      treesMade := run.treesMade + root.isSome.toNat
      buffersGiven := run.buffersGiven + a.statBuf.isSome.toNat })

theorem Ran.discard {cmd : Command} {root : Option CJson} {q : Request} {a : Answer}
    {gReceive : Bool} {run : Run} {v : α} {x : Handler α}
    (h : Ran cmd root q a gReceive run v (x.run run)) :
    Ran cmd root q a gReceive run () ((x >>= fun _ => pure ()).run run) := by
  rw [EStateM.run_bind]
  generalize x.run run = r at h
  cases h with
  | idle htaken => exact .idle htaken
  | taken htaken hread heffect => exact .taken htaken hread heffect
  | null htaken hread use => exact .null htaken hread use

section
variable (run : Run)

@[simp] theorem run_cJSONParse (buf : List UInt8) :
    (cJSONParse buf).run run = .ok (CJson.parse buf)
      { run with treesMade := run.treesMade + (CJson.parse buf).isSome.toNat } := rfl

@[simp] theorem run_valuestringOf_some (item : CJson) :
    (valuestringOf (some item)).run run = .ok item.valuestring run := rfl

@[simp] theorem run_valuestringOf_none : (valuestringOf none).run run = .error .item run := rfl

@[simp] theorem run_strcmpEq_some (text : List UInt8) (literal : String) :
    (strcmpEq (some text) literal).run run = .ok (cstr text = bytes literal) run := rfl

@[simp] theorem run_strcmpEq_none (literal : String) :
    (strcmpEq none literal).run run = .error .string run := rfl

@[simp] theorem run_devTransfer (e : Surroundings) (q : Request) :
    (devTransfer e q).run run = .ok (e.devTransfer q) { run with
      requests := run.requests ++ [q]
      buffersGiven := run.buffersGiven + (e.devTransfer q).statBuf.isSome.toNat } := rfl

@[simp] theorem run_sendStateInquiry (statBuf : Option (List UInt8)) (statBufLen type : Int) :
    (sendStateInquiry statBuf statBufLen type).run run =
      .ok () { run with sent := run.sent ++ [⟨statBuf, statBufLen, type⟩] } := rfl

@[simp] theorem run_freeBuf (statBuf : Option (List UInt8)) :
    (freeBuf statBuf).run run =
      .ok () { run with buffersFreed := run.buffersFreed + statBuf.isSome.toNat } := rfl

@[simp] theorem run_cJSONDelete (root : Option CJson) :
    (cJSONDelete root).run run =
      .ok () { run with treesFreed := run.treesFreed + root.isSome.toNat } := rfl

end

theorem handle_null {cmd : Command} {e : Surroundings} {buf : List UInt8}
    (h : getObjectItem (CJson.parse buf) (bytes "dst") = none) (bufLen : Int) (run : Run) :
    (cmd.handle e buf bufLen).run run = .error .item
      { run with treesMade := run.treesMade + (CJson.parse buf).isSome.toNat } := by
  cases cmd with
  | inquiry => simp [Command.handle, inquiryStateFrom, h]
  | rssi => simp [Command.handle, rssiStateChange, h]

theorem memberString_some {root : Option CJson} {name : String} {item : CJson}
    (h : getObjectItem root (bytes name) = some item) :
    memberString root name = item.valuestring.map cstr := by
  rw [memberString, h, Option.bind_some]

section
variable {root : Option CJson} {name : String}

theorem run_strcmp_none (h : memberString root name = none) (literal : String)
    (k : Bool → Handler α) (run : Run) :
    ∃ use, (valuestringOf (getObjectItem root (bytes name)) >>= fun s =>
      strcmpEq s literal >>= k).run run = .error use run := by
  cases hitem : getObjectItem root (bytes name) with
  | none => exact ⟨.item, by simp⟩
  | some item =>
    cases hstring : item.valuestring with
    | none => exact ⟨.string, by simp [hstring]⟩
    | some text => simp [memberString, hitem, hstring] at h

theorem run_strcmp_some (h : memberString root name = some text) (literal : String)
    (k : Bool → Handler α) (run : Run) :
    (valuestringOf (getObjectItem root (bytes name)) >>= fun s =>
      strcmpEq s literal >>= k).run run = (k (text = bytes literal)).run run := by
  obtain ⟨text', htext, rfl⟩ := Option.map_eq_some_iff.mp h
  obtain ⟨item, hitem, hstring⟩ := Option.bind_eq_some_iff.mp htext
  simp [hitem, hstring]

end

theorem effect_forwarded {root : Option CJson} {a : Answer} {run : Run}
    (hdst : memberString root "dst" = some dst) (htype : forwarded root dst = some type) :
    Command.inquiry.Effect root a run run.rssiState
      (run.sent ++ [⟨a.statBuf, a.statBufLen + 1, type⟩]) :=
  ⟨rfl, by simp [hdst, htype]⟩

theorem effect_dropped {root : Option CJson} {a : Answer} {run : Run}
    (hdst : memberString root "dst" = some dst) (htype : forwarded root dst = none) :
    Command.inquiry.Effect root a run run.rssiState run.sent :=
  ⟨rfl, by simp [hdst, htype]⟩

theorem run_valuestringOf {root : Option CJson} {name : String} {item : CJson}
    (h : getObjectItem root (bytes name) = some item) (run : Run) :
    (valuestringOf (getObjectItem root (bytes name))).run run = .ok item.valuestring run := by
  rw [h, run_valuestringOf_some]

theorem rssiStateChange_ran {e : Surroundings} {buf : List UInt8} {item : CJson}
    (h : getObjectItem (CJson.parse buf) (bytes "dst") = some item) (bufLen : Int) (run : Run) :
    Ran .rssi (CJson.parse buf) (request buf bufLen) (e.devTransfer (request buf bufLen))
      e.gReceive run () ((rssiStateChange e buf bufLen).run run) := by
  simp only [rssiStateChange, EStateM.run_bind, run_cJSONParse, run_valuestringOf h,
    run_devTransfer, ← memberString_some h]
  split
  · rename_i htaken
    cases htimer : memberString (CJson.parse buf) "timer" with
    | none =>
      obtain ⟨use, huse⟩ := run_strcmp_none htimer "0" _ _
      rw [huse]
      exact .null htaken (by simp [Command.Readable, htimer]) use
    | some timer =>
      have hread : Command.rssi.Readable (CJson.parse buf) := Option.isSome_iff_exists.mpr ⟨_, htimer⟩
      rw [run_strcmp_some htimer]
      by_cases hzero : timer = bytes "0"
      · rw [if_pos (decide_eq_true hzero)]
        exact .taken htaken hread ⟨by rw [htimer, hzero, if_pos rfl], rfl⟩
      · rw [if_neg (by simpa using hzero)]
        exact .taken htaken hread ⟨by rw [htimer, if_neg (by simpa using hzero)], rfl⟩
  · rename_i htaken
    exact .idle htaken

theorem inquiryStateFrom_ran {e : Surroundings} {buf : List UInt8} {item : CJson}
    (h : getObjectItem (CJson.parse buf) (bytes "dst") = some item) (bufLen : Int) (run : Run) :
    Ran .inquiry (CJson.parse buf) (request buf bufLen) (e.devTransfer (request buf bufLen))
      e.gReceive run (e.devTransfer (request buf bufLen)).ret
      ((inquiryStateFrom e buf bufLen).run run) := by
  simp only [inquiryStateFrom, EStateM.run_bind, run_cJSONParse, run_valuestringOf h,
    run_devTransfer, ← memberString_some h]
  rw [← request]
  generalize hroot : CJson.parse buf = root
  generalize e.devTransfer (request buf bufLen) = a
  split
  · rename_i htaken
    cases hdst : memberString root "dst" with
    | none =>
      obtain ⟨use, huse⟩ := run_strcmp_none hdst "mon" _ _
      rw [huse]
      refine .null htaken ?_ use
      rintro ⟨dst, hstring, -⟩
      rw [hdst] at hstring
      cases hstring
    | some dst =>
      have readable (hreg : dst = bytes "reg" → (memberString root "gw_type").isSome = true) :
          Command.inquiry.Readable root := ⟨dst, hdst, hreg⟩
      rw [run_strcmp_some hdst]
      by_cases hmon : dst = bytes "mon"
      · have hne : dst ≠ bytes "reg" := by
          rw [hmon]
          decide
        rw [if_pos (decide_eq_true hmon)]
        exact .taken htaken (readable (absurd · hne))
          (effect_forwarded hdst (by rw [forwarded, if_pos hmon]))
      rw [if_neg (by simpa using hmon), run_strcmp_some hdst]
      by_cases hgpio : dst = bytes "gpio"
      · have hne : dst ≠ bytes "reg" := by
          rw [hgpio]
          decide
        rw [if_pos (decide_eq_true hgpio)]
        exact .taken htaken (readable (absurd · hne))
          (effect_forwarded hdst (by rw [forwarded, if_neg hmon, if_pos hgpio]))
      rw [if_neg (by simpa using hgpio), run_strcmp_some hdst]
      by_cases hreg : dst = bytes "reg"
      · rw [if_pos (decide_eq_true hreg)]
        cases htype : memberString root "gw_type" with
        | none =>
          obtain ⟨use, huse⟩ := run_strcmp_none htype "fpga" _ _
          rw [huse]
          refine .null htaken ?_ use
          rintro ⟨dst', hstring, hread⟩
          obtain rfl := Option.some.inj (hdst.symm.trans hstring)
          have hsome := hread hreg
          rw [htype] at hsome
          cases hsome
        | some type =>
          rw [run_strcmp_some htype]
          refine .taken htaken (readable fun _ => by rw [htype]; rfl) (effect_forwarded hdst ?_)
          rw [forwarded, if_neg hmon, if_neg hgpio, if_pos hreg, htype]
          simp
      · rw [if_neg (by simpa using hreg)]
        exact .taken htaken (readable (absurd · hreg))
          (effect_dropped hdst (by rw [forwarded, if_neg hmon, if_neg hgpio, if_neg hreg]))
  · rename_i htaken
    exact .idle htaken

theorem handle_ran (cmd : Command) {e : Surroundings} {buf : List UInt8} {item : CJson}
    (h : getObjectItem (CJson.parse buf) (bytes "dst") = some item) (bufLen : Int) (run : Run) :
    Ran cmd (CJson.parse buf) (request buf bufLen) (e.devTransfer (request buf bufLen)) e.gReceive
      run () ((cmd.handle e buf bufLen).run run) := by
  cases cmd with
  | inquiry => exact (inquiryStateFrom_ran h bufLen run).discard
  | rssi => exact rssiStateChange_ran h bufLen run

-- ---------------------------------------------------------------------------
-- Safe runs
-- ---------------------------------------------------------------------------

/-- The run comes to its end and frees what it was given once. -/
def Clean : EStateM.Result NullUse Run α → Prop
  | .ok _ run => run.treesFreed = run.treesMade ∧ run.buffersFreed = run.buffersGiven
  | .error _ _ => False

/-- The text has a destination; what is read after an answer is a string; and an
answer that is not taken comes without a buffer. -/
structure Handled (cmd : Command) (e : Surroundings) (buf : List UInt8) (bufLen : Int) : Prop where
  dst : (getObjectItem (CJson.parse buf) (bytes "dst")).isSome = true
  read : (e.devTransfer (request buf bufLen)).Taken e.gReceive → cmd.Readable (CJson.parse buf)
  free : ¬ (e.devTransfer (request buf bufLen)).Taken e.gReceive →
    (e.devTransfer (request buf bufLen)).statBuf = none

theorem not_clean_of_null {cmd : Command} {e : Surroundings} {buf : List UInt8}
    (h : getObjectItem (CJson.parse buf) (bytes "dst") = none) (bufLen rssiState : Int) :
    ¬ Clean ((cmd.handle e buf bufLen).run (.start rssiState)) := by
  rw [handle_null h]
  exact not_false

/-- A command runs clean for the texts and answers that it can handle, and for
no others. -/
theorem clean_iff_handled (cmd : Command) (e : Surroundings) (buf : List UInt8) (bufLen : Int)
    (rssiState : Int) :
    Clean ((cmd.handle e buf bufLen).run (.start rssiState)) ↔ Handled cmd e buf bufLen := by
  cases hitem : getObjectItem (CJson.parse buf) (bytes "dst") with
  | none =>
    refine iff_of_false (not_clean_of_null hitem bufLen rssiState) fun h => ?_
    have hdst := h.dst
    rw [hitem] at hdst
    cases hdst
  | some item =>
    have hran := handle_ran cmd (e := e) hitem bufLen (.start rssiState)
    have hdst : (getObjectItem (CJson.parse buf) (bytes "dst")).isSome = true := by rw [hitem]; rfl
    have handled (h : _ ∧ _) : Handled cmd e buf bufLen := ⟨hdst, h.1, h.2⟩
    refine Iff.trans ?_ ⟨handled, fun h => ⟨h.read, h.free⟩⟩
    generalize e.devTransfer (request buf bufLen) = a at hran ⊢
    generalize (cmd.handle e buf bufLen).run (.start rssiState) = r at hran
    cases hran with
    | idle htaken =>
      -- the buffer of an answer that is not taken is never freed
      have hfreed : 0 = a.statBuf.isSome.toNat ↔ a.statBuf = none := by
        cases a.statBuf <;> simp
      simp [Clean, Run.start, htaken, hfreed]
    | taken htaken hread => simp [Clean, Run.start, htaken, hread]
    | null htaken hread use => simp [Clean, htaken, hread]

def noDestination : List UInt8 := bytes "\x7b\"gw_type\":\"fpga\"\x7d"

theorem noDestination_isNone :
    (getObjectItem (CJson.parse noDestination) (bytes "dst")).isNone = true := by
  decide +kernel

theorem noDestination_null : ¬ ∀ cmd e buf bufLen rssiState,
    Clean ((Command.handle cmd e buf bufLen).run (.start rssiState)) := by
  intro h
  exact not_clean_of_null (Option.isNone_iff_eq_none.mp noDestination_isNone) 18 0
    (h .inquiry ⟨fun _ => ⟨-1, none, 0⟩, true⟩ _ 18 0)

end DevAdapter.ClientJson
