import DevAdapter.I2c
import DevAdapter.Lib.Unchanged
import DevAdapter.RssiBounds
import DevAdapter.System.State

/-!
# What is read of a received payload

`message_callback` copies the bytes of a payload into a buffer of just their
number. `inquiry_state_from` and `process_exception` send one byte more, and what
is logged or parsed is read up to a NUL, wherever that stands.
-/

namespace DevAdapter

open CJson OffsetMemory Unchanged Word32
open ClientJson (Answer memberString forwarded)

/-- The buffer of a payload, with what lies behind it. -/
structure Received where
  payload : List UInt8
  behind : List UInt8
  pos : 1 ≤ payload.length
  lt : payload.length < 2 ^ 31

/-- What is done with a buffer: the loads by offset and number of bytes, the
payloads of the state frames made of it, and the texts given to `cJSON_Parse`. -/
structure Uses where
  loads : List (Int × Nat) := []
  frames : List (List UInt8) := []
  texts : List (List UInt8) := []

namespace Received

variable (r : Received)

def text : List UInt8 := r.payload ++ r.behind

def memory (text : List UInt8) : Mem UInt8 := Mem.write (fun _ => 0) 0 text

def stringLoad (text : List UInt8) : Int × Nat := (0, (cstr text).length + 1)

def answer : Answer := ⟨0, some r.text, r.payload.length⟩

/-- `process_exception` for a message of a topic: what it returns and does. -/
def processException (waiting : Waiting) (topic : List UInt8) (shareBuf : Mem UInt8) :
    Int × Uses :=
  if waiting = .disconnected then (-1, {})
  else if topic = bytes "mon/all/pub/system_stat" then
    let statBufLen := wrap32 (r.payload.length + 1)
    -- the text is logged before it is sent on
    (0, {
      loads := [stringLoad r.text, (0, sizeT statBufLen)]
      frames := [(memory r.text).read 0 (sizeT statBufLen)] })
  else if topic = bytes "rf/all/pub/rssi" then
    (0, { loads := (RssiRun.of shareBuf (memory r.text)).loads })
  else (0, {})

def stateInquiryUses (sent : List ClientJson.StateInquiry) : Uses where
  loads := sent.map fun s => (0, sizeT s.statBufLen)
  frames := sent.map fun s => (memory (s.statBuf.getD [])).read 0 (sizeT s.statBufLen)

def parseUses (parsed : List (List UInt8)) : Uses where
  loads := parsed.map stringLoad
  texts := parsed.map fun text => cstr text ++ [0]

end Received

inductive Consumer
  | inquiryStateFrom (buf : List UInt8) (bufLen : Int) (gReceive : Bool)
  | i2cset (printNumber : List UInt8 → List UInt8) (dev addr reg : List UInt8) (size : Int)
    (data : Option (List UInt8))
  | i2cget (printNumber : List UInt8 → List UInt8) (dev addr reg : List UInt8) (size : Int)
  | processException (waiting : Waiting) (topic : List UInt8) (shareBuf : Mem UInt8)

namespace Consumer

open Received

def uses (r : Received) : Consumer → Uses
  | .inquiryStateFrom buf bufLen gReceive =>
    stateInquiryUses (lastState ((ClientJson.Command.inquiry.handle ⟨fun _ => r.answer, gReceive⟩
      buf bufLen).run (.start 0))).sent
  | .i2cset printNumber dev addr reg size data =>
    parseUses (lastState ((I2c.i2cset ⟨fun _ => r.answer, printNumber⟩ dev addr reg size data).run
      .start)).parsed
  | .i2cget printNumber dev addr reg size =>
    parseUses (lastState ((I2c.i2cget ⟨fun _ => r.answer, printNumber⟩ dev addr reg size).run
      .start)).parsed
  | .processException waiting topic shareBuf => (r.processException waiting topic shareBuf).2

/-- The request has a destination whose responses are sent on, and a client is there. -/
def Forwards (gReceive : Bool) (root : Option CJson) : Prop :=
  gReceive = true ∧ ∃ dst, memberString root "dst" = some dst ∧
    (dst = bytes "mon" ∨ dst = bytes "gpio" ∨
      dst = bytes "reg" ∧ (memberString root "gw_type").isSome = true)

/-- Nothing is sent on or parsed, and an RSSI message holds as many bytes as it says. -/
def Spares (r : Received) : Consumer → Prop
  | .inquiryStateFrom buf _ gReceive => ¬ Forwards gReceive (CJson.parse buf)
  | .i2cset .. | .i2cget .. => False
  | .processException waiting topic _ => waiting = .disconnected ∨
    topic ≠ bytes "mon/all/pub/system_stat" ∧
      (topic = bytes "rf/all/pub/rssi" → 0 ≤ int32At (memory r.text) 8 ∧
        12 + int32At (memory r.text) 8 ≤ r.payload.length)

end Consumer

/-- Only the payload is read, and what is sent or parsed is the payload with a NUL. -/
structure Uses.Exact (u : Uses) (payload : List UInt8) : Prop where
  loads : ∀ a ∈ u.loads, 0 ≤ a.1 ∧ a.1 + a.2 ≤ payload.length
  frames : ∀ frame ∈ u.frames, frame = payload ++ [0]
  texts : ∀ text ∈ u.texts, text = payload ++ [0]

-- ---------------------------------------------------------------------------
-- What i2cset and i2cget parse
-- ---------------------------------------------------------------------------

namespace I2c

theorem keeps_free (p : Option (Ptr α)) : Keeps Run.parsed (free p) := keeps_modify fun _ => rfl

theorem keeps_valuestringOf (item : Option CJson) : Keeps Run.parsed (valuestringOf item) := by
  cases item with
  | none => exact keeps_throw _
  | some item => exact keeps_pure _

theorem keeps_stringOf (text : Option (List UInt8)) : Keeps Run.parsed (stringOf text) := by
  cases text with
  | none => exact keeps_throw _
  | some text => exact keeps_pure _

theorem keeps_copyReturns (items : List CJson) (ret : Option (Ptr (List UInt8))) :
    Keeps Run.parsed (copyReturns items ret) := by
  induction items generalizing ret with
  | nil => exact keeps_pure _
  | cons item next ih =>
    refine (keeps_valuestringOf _).bind fun retTmp => ?_
    refine Keeps.bind (keeps_modifyGet fun _ => rfl) fun block => ?_
    refine (keeps_stringOf retTmp).bind fun text => ?_
    exact Keeps.bind (keeps_modify fun _ => rfl) fun _ => ih _

theorem parsed_of_answered {e : Bus} {root item : CJson}
    (hdst : getObjectItem (some root) (bytes "dst") = some item)
    (hans : Answered (e.devTransfer (request e root)))
    (htext : (e.devTransfer (request e root)).statBuf = some text)
    {use : Response → Option (Ptr CJson) → Call α} {rest : Response → Call α}
    (huse : ∀ r root, Keeps Run.parsed (use r root)) (run : Run) :
    (lastState ((exchange e root >>= fun r =>
      if r.ret = 0 ∧ 0 < r.statBufLen then cJSONParse r.statBuf >>= use r else rest r).run
        run)).parsed = run.parsed ++ [text] := by
  obtain ⟨statBuf, heap, hrun, hbuf, -⟩ := exchange_ran e hdst run
  obtain ⟨tree, heap', hparse, -, -⟩ := cJSONParse_ran statBuf
    { run with heap := heap, requests := run.requests ++ [request e root] }
  rw [EStateM.run_bind, hrun]
  simp only [if_pos (show _ ∧ _ from hans)]
  rw [EStateM.run_bind, hparse]
  simp only [huse _ _ _, hbuf, htext, Option.toList_some]

theorem i2cget_parsed {e : Bus} {dev addr reg : List UInt8} {size : Int}
    (hans : Answered (e.devTransfer (request e (getTree dev addr reg size))))
    (htext : (e.devTransfer (request e (getTree dev addr reg size))).statBuf = some text)
    (run : Run) :
    (lastState ((i2cget e dev addr reg size).run run)).parsed = run.parsed ++ [text] := by
  refine parsed_of_answered (getTree_dst dev addr reg size) hans htext (fun r root => ?_) run
  refine (keeps_valuestringOf _).bind fun stat => (keeps_stringOf stat).bind fun text => ?_
  split
  · exact (keeps_free root).bind fun _ => (keeps_free r.statBuf).bind fun _ => keeps_pure _
  · refine (keeps_copyReturns _ none).bind fun ret => ?_
    exact (keeps_free root).bind fun _ => (keeps_free r.statBuf).bind fun _ => keeps_pure _

theorem i2cset_parsed {e : Bus} {dev addr reg : List UInt8} {size : Int}
    {data : Option (List UInt8)}
    (hans : Answered (e.devTransfer (request e (setTree dev addr reg size data))))
    (htext : (e.devTransfer (request e (setTree dev addr reg size data))).statBuf = some text)
    (run : Run) :
    (lastState ((i2cset e dev addr reg size data).run run)).parsed = run.parsed ++ [text] := by
  refine parsed_of_answered (setTree_dst dev addr reg size data) hans htext (fun r root => ?_) run
  refine (keeps_valuestringOf _).bind fun stat => (keeps_stringOf stat).bind fun text => ?_
  exact (keeps_free root).bind fun _ => (keeps_free r.statBuf).bind fun _ => keeps_pure _

end I2c

-- ---------------------------------------------------------------------------
-- Exact forwarding
-- ---------------------------------------------------------------------------

theorem exact_nothing (payload : List UInt8) : ({} : Uses).Exact payload := ⟨nofun, nofun, nofun⟩

theorem not_exact_of_load {u : Uses} {payload : List UInt8} (hmem : (0, n) ∈ u.loads)
    (hn : payload.length < n) : ¬ u.Exact payload := by
  intro h
  have hload := (h.loads _ hmem).2
  simp only [Int.zero_add] at hload
  omega

namespace Received

variable (r : Received)

theorem sizeT_succ : sizeT (r.payload.length + 1) = r.payload.length + 1 := by
  have hlt := r.lt
  unfold sizeT
  omega

theorem sizeT_wrap_succ : sizeT (wrap32 (r.payload.length + 1)) = r.payload.length + 1 := by
  have hlt := r.lt
  obtain ⟨j, hj⟩ := wrap32_eq_sub ((r.payload.length : Int) + 1)
  unfold sizeT
  omega

theorem answered : I2c.Answered r.answer := by
  have hpos := r.pos
  refine ⟨rfl, ?_⟩
  show 0 < (r.payload.length : Int)
  omega

end Received

open Consumer Received

theorem forwarded_iff {root : Option CJson} {dst : List UInt8} :
    (∃ type, forwarded root dst = some type) ↔
      dst = bytes "mon" ∨ dst = bytes "gpio" ∨ dst = bytes "reg" := by
  by_cases hmon : dst = bytes "mon"
  · exact iff_of_true ⟨_, if_pos hmon⟩ (.inl hmon)
  by_cases hgpio : dst = bytes "gpio"
  · exact iff_of_true ⟨_, (if_neg hmon).trans (if_pos hgpio)⟩ (.inr (.inl hgpio))
  by_cases hreg : dst = bytes "reg"
  · exact iff_of_true ⟨_, (if_neg hmon).trans ((if_neg hgpio).trans (if_pos hreg))⟩
      (.inr (.inr hreg))
  · simp [forwarded, hmon, hgpio, hreg]

theorem forwards_iff {gReceive : Bool} {root : Option CJson} :
    Forwards gReceive root ↔ gReceive = true ∧ ClientJson.Command.inquiry.Readable root ∧
      ∃ type, (memberString root "dst").bind (forwarded root) = some type := by
  constructor
  · rintro ⟨hg, dst, hdst, hkind⟩
    rw [hdst, Option.bind_some]
    rcases hkind with hmon | hgpio | ⟨hreg, htype⟩
    · exact ⟨hg, ⟨dst, hdst, fun hreg => absurd (hmon.symm.trans hreg) (by decide)⟩,
        forwarded_iff.mpr (.inl hmon)⟩
    · exact ⟨hg, ⟨dst, hdst, fun hreg => absurd (hgpio.symm.trans hreg) (by decide)⟩,
        forwarded_iff.mpr (.inr (.inl hgpio))⟩
    · exact ⟨hg, ⟨dst, hdst, fun _ => htype⟩, forwarded_iff.mpr (.inr (.inr hreg))⟩
  · rintro ⟨hg, ⟨dst, hdst, hread⟩, htype⟩
    rw [hdst, Option.bind_some] at htype
    refine ⟨hg, dst, hdst, ?_⟩
    exact (forwarded_iff.mp htype).imp_right (.imp_right fun hreg => ⟨hreg, hread hreg⟩)

theorem inquiry_sent (r : Received) (buf : List UInt8) (bufLen : Int) (gReceive : Bool) :
    ∃ sent, (lastState ((ClientJson.Command.inquiry.handle ⟨fun _ => r.answer, gReceive⟩
        buf bufLen).run (.start 0))).sent = sent ∧
      (Forwards gReceive (CJson.parse buf) →
        ∃ type, sent = [⟨some r.text, r.payload.length + 1, type⟩]) ∧
      (¬ Forwards gReceive (CJson.parse buf) → sent = []) := by
  refine ⟨_, rfl, ?_⟩
  cases hdst : getObjectItem (CJson.parse buf) (bytes "dst") with
  | none =>
    rw [ClientJson.handle_null hdst]
    refine ⟨?_, fun _ => rfl⟩
    rintro ⟨-, dst, hmember, -⟩
    simp [memberString, hdst] at hmember
  | some item =>
    have hran := ClientJson.handle_ran .inquiry (e := ⟨fun _ => r.answer, gReceive⟩) hdst bufLen
      (.start 0)
    generalize (ClientJson.Command.inquiry.handle _ buf bufLen).run (.start 0) = result at hran ⊢
    have hans := r.answered
    cases hran with
    | idle htaken =>
      refine ⟨fun hfwd => absurd ⟨hans.1, hans.2, hfwd.1⟩ htaken, fun _ => rfl⟩
    | taken htaken hread heffect =>
      obtain ⟨-, rfl⟩ := heffect
      refine ⟨fun hfwd => ?_, fun hno => ?_⟩
      · obtain ⟨-, -, type, htype⟩ := forwards_iff.mp hfwd
        exact ⟨type, by rw [htype]; rfl⟩
      · cases htype : (memberString (CJson.parse buf) "dst").bind (forwarded (CJson.parse buf)) with
        | none => rfl
        | some type => exact absurd (forwards_iff.mpr ⟨htaken.2.2, hread, type, htype⟩) hno
    | null htaken hread use =>
      exact ⟨fun hfwd => absurd (forwards_iff.mp hfwd).2.1 hread, fun _ => rfl⟩

theorem inquiry_exact_iff (r : Received) (buf : List UInt8) (bufLen : Int) (gReceive : Bool) :
    ((Consumer.inquiryStateFrom buf bufLen gReceive).uses r).Exact r.payload ↔
      ¬ Forwards gReceive (CJson.parse buf) := by
  obtain ⟨sent, hsent, hfwd, hno⟩ := inquiry_sent r buf bufLen gReceive
  rw [uses, hsent]
  by_cases h : Forwards gReceive (CJson.parse buf)
  · obtain ⟨type, rfl⟩ := hfwd h
    refine iff_of_false ?_ (not_not_intro h)
    exact not_exact_of_load (List.mem_singleton.mpr rfl) (by rw [r.sizeT_succ]; exact Nat.lt_succ_self _)
  · rw [hno h]
    exact iff_of_true (exact_nothing _) h

/-- A text that is the payload is read up to a NUL that is not the payload's. -/
theorem not_exact_parse (r : Received) : ¬ (parseUses [r.text]).Exact r.payload := by
  intro h
  have htext := List.append_cancel_right (h.texts _ (List.mem_singleton.mpr rfl))
  have hload := (h.loads (stringLoad r.text) (List.mem_singleton.mpr rfl)).2
  simp only [stringLoad, htext] at hload
  omega

theorem rssi_exact_iff (shareBuf : Mem UInt8) (r : Received) :
    (Uses.mk (RssiRun.of shareBuf (memory r.text)).loads [] []).Exact r.payload ↔
      0 ≤ int32At (memory r.text) 8 ∧ 12 + int32At (memory r.text) 8 ≤ r.payload.length := by
  have hrange := int32At_range (memory r.text) 8
  have hlt := r.lt
  constructor
  · intro h
    have hload := h.loads (12, sizeT (int32At (memory r.text) 8)) (by simp [RssiRun.loads_of])
    have hsize := cast_sizeT (int32At (memory r.text) 8)
    simp only at hload
    omega
  · rintro ⟨hlow, hfits⟩
    exact ⟨RssiRun.loads_inside shareBuf hlow hfits, nofun, nofun⟩

theorem exception_exact_iff (r : Received) (waiting : Waiting) (topic : List UInt8)
    (shareBuf : Mem UInt8) :
    (r.processException waiting topic shareBuf).2.Exact r.payload ↔
      (Consumer.processException waiting topic shareBuf).Spares r := by
  unfold Received.processException Spares
  split_ifs with hdis hstat hrssi
  · exact iff_of_true (exact_nothing _) (.inl hdis)
  · refine iff_of_false ?_ (by simp [hdis, hstat])
    refine not_exact_of_load (List.mem_cons_of_mem _ (List.mem_singleton.mpr rfl)) ?_
    rw [r.sizeT_wrap_succ]
    exact Nat.lt_succ_self _
  · rw [rssi_exact_iff]
    exact ⟨fun h => .inr ⟨hstat, fun _ => h⟩, fun h => (h.resolve_left hdis).2 hrssi⟩
  · exact iff_of_true (exact_nothing _) (.inr ⟨hstat, fun h => absurd h hrssi⟩)

/-- A consumer reads only the payload, and sends or parses it with a NUL, if and
only if it spares the payload. -/
theorem forwarded_exactly_iff (r : Received) (c : Consumer) :
    (c.uses r).Exact r.payload ↔ c.Spares r := by
  cases c with
  | inquiryStateFrom buf bufLen gReceive => exact inquiry_exact_iff r buf bufLen gReceive
  | i2cset printNumber dev addr reg size data =>
    rw [uses, I2c.i2cset_parsed r.answered rfl]
    exact iff_of_false (not_exact_parse r) id
  | i2cget printNumber dev addr reg size =>
    rw [uses, I2c.i2cget_parsed r.answered rfl]
    exact iff_of_false (not_exact_parse r) id
  | processException waiting topic shareBuf => exact exception_exact_iff r waiting topic shareBuf

def Received.ok : Received := ⟨bytes "ok", [255], by decide, by decide⟩

theorem monitorOk_inexact : ¬ ∀ r (c : Consumer), (c.uses r).Exact r.payload := by
  intro h
  have hexact := h .ok (.inquiryStateFrom (bytes "\x7b\"dst\":\"mon\"\x7d") 13 true)
  refine (inquiry_exact_iff _ _ _ _).mp hexact ⟨rfl, bytes "mon", ?_, .inl rfl⟩
  decide +kernel

end DevAdapter
