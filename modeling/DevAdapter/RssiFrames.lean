import DevAdapter.Lib.Machine
import DevAdapter.ProducedFrames
import Mathlib.Data.List.Nodup

/-!
# RSSI messages handled at once

`message_callback` starts a `cb_thread` for each message, and all of them build
their frames in `shareInfo->buf_`. A frame that is handed to `send` is made of
what the buffer holds then, and of the length that its own thread computed.
-/

namespace DevAdapter

open Function (update)
open OffsetMemory Word32 Transition

-- ---------------------------------------------------------------------------
-- What one message puts into the buffer
-- ---------------------------------------------------------------------------

def rssiLength (buf : Mem UInt8) : Int := (printRssiStruct (fun _ => 0) buf).sendBufLen

def rssiFrame (buf : Mem UInt8) : List UInt8 := (printRssiStruct (fun _ => 0) buf).bytes

theorem printRssiStruct_sendBufLen (shareBuf buf : Mem UInt8) :
    (printRssiStruct shareBuf buf).sendBufLen = rssiLength buf := rfl

theorem int32At_range (m : Mem UInt8) (off : Int) :
    -2 ^ 31 ≤ int32At m off ∧ int32At m off < 2 ^ 31 := by
  unfold int32At ofLe32
  exact wrap32_range _

theorem rssiLength_def (buf : Mem UInt8) :
    rssiLength buf = wrap32 (wrap32 (4 + 4 + 4 + int32At buf 8) + 4 + 4) := by
  simp only [rssiLength, printRssiStruct]

/-- An `int` overflows downwards only. -/
theorem rssiLength_le (buf : Mem UInt8) : rssiLength buf ≤ 20 + int32At buf 8 := by
  obtain ⟨j, hj⟩ := wrap32_eq_sub (4 + 4 + 4 + int32At buf 8)
  obtain ⟨k, hk⟩ := wrap32_eq_sub (wrap32 (4 + 4 + 4 + int32At buf 8) + 4 + 4)
  have hrange := wrap32_range (wrap32 (4 + 4 + 4 + int32At buf 8) + 4 + 4)
  have hn := int32At_range buf 8
  have hlen := rssiLength_def buf
  omega

theorem rssiLength_eq {buf : Mem UInt8} (h : 0 < rssiLength buf) :
    rssiLength buf = 20 + int32At buf 8 := by
  obtain ⟨j, hj⟩ := wrap32_eq_sub (4 + 4 + 4 + int32At buf 8)
  obtain ⟨k, hk⟩ := wrap32_eq_sub (wrap32 (4 + 4 + 4 + int32At buf 8) + 4 + 4)
  have hn := int32At_range buf 8
  have hle := rssiLength_le buf
  have hlen := rssiLength_def buf
  omega

theorem read_write_take (m : Mem UInt8) {bs : List UInt8} {k : Nat} (h : k ≤ bs.length) :
    (m.write 0 bs).read 0 k = bs.take k := by
  rw [← take_read _ _ h, read_write_self]

theorem rssiFrame_eq (buf : Mem UInt8) :
    rssiFrame buf = (rssiEncoding buf).take (rssiLength buf).toNat := by
  have hle := rssiLength_le buf
  rw [rssiFrame, SendArgs.bytes, printRssiStruct_sendBuf, printRssiStruct_sendBufLen,
    read_write_take _ (by rw [length_rssiEncoding]; omega)]

@[simp] theorem length_rssiFrame (buf : Mem UInt8) :
    (rssiFrame buf).length = (rssiLength buf).toNat := by
  rw [rssiFrame, SendArgs.bytes, length_read, printRssiStruct_sendBufLen]

theorem rssiBufLen_eq {buf buf' : Mem UInt8}
    (h : (rssiEncoding buf).take 4 = (rssiEncoding buf').take 4) :
    int32At buf 8 = int32At buf' 8 := by
  rw [rssiEncoding, rssiEncoding, List.take_left' (length_le32 _),
    List.take_left' (length_le32 _)] at h
  have hword := congrArg ofLe32 h
  rw [ofLe32_le32, ofLe32_le32] at hword
  obtain ⟨j, hj⟩ := wrap32_eq_sub (4 + 4 + 4 + int32At buf 8)
  obtain ⟨j', hj'⟩ := wrap32_eq_sub (4 + 4 + 4 + int32At buf' 8)
  obtain ⟨k, hk⟩ := wrap32_eq_sub (wrap32 (4 + 4 + 4 + int32At buf 8) + 4)
  obtain ⟨k', hk'⟩ := wrap32_eq_sub (wrap32 (4 + 4 + 4 + int32At buf' 8) + 4)
  have hn := int32At_range buf 8
  have hn' := int32At_range buf' 8
  omega

theorem handed_eq_iff (m last buf : Mem UInt8) :
    (m.write 0 (rssiEncoding last)).read 0 (rssiLength buf).toNat = rssiFrame buf ↔
      rssiFrame buf <+: rssiEncoding last := by
  by_cases hle : (rssiLength buf).toNat ≤ (rssiEncoding last).length
  · rw [read_write_take _ hle, List.prefix_iff_eq_take, length_rssiFrame]
    exact eq_comm
  · have hlong : 20 < (rssiLength buf).toNat := by
      rw [length_rssiEncoding] at hle
      omega
    constructor
    · intro heq
      have hown : rssiLength buf = 20 + int32At buf 8 := rssiLength_eq (by omega)
      have htake := congrArg (List.take 4) heq
      rw [take_read _ _ (by omega), read_write_take _ (by rw [length_rssiEncoding]; omega), rssiFrame_eq, List.take_take,
        Nat.min_eq_left (by omega)] at htake
      have hlen := rssiBufLen_eq htake
      rw [length_rssiEncoding] at hle
      omega
    · intro hprefix
      have := hprefix.length_le
      rw [length_rssiFrame] at this
      exact absurd this hle

-- ---------------------------------------------------------------------------
-- The threads
-- ---------------------------------------------------------------------------

/-- Where a `cb_thread` is: before `print_rssi_struct` encodes, before it calls
`sendToPc`, and whether a call of `send` came of it. A thread that was refused
has with it, as a trace, what it saw of the client. -/
inductive RssiPc
  | absent
  | encode
  | send (length : Int)
  | sent
  | refused (connected sendEnable : Bool)
  deriving DecidableEq, Repr

structure Rssi where
  -- `shareInfo->buf_`
  shareBuf : Mem UInt8
  -- `waiting` is not `STATE_DISCONNECTED`, and a client is there
  connected : Bool
  sendEnable : Bool
  -- what `message_callback` copied for a thread
  buf : Nat → Mem UInt8
  pc : Nat → RssiPc
  -- trace: the message that was encoded last
  encoded : Option (Mem UInt8)
  -- trace: the threads that called `send`, and what they handed to it
  senders : List Nat
  handed : List (List UInt8)

/-- A message comes in, a thread encodes, a thread does the locked part of
`sendToPc`, where `send` takes everything or not, and the client's side changes. -/
inductive RssiAct
  | message (t : Nat) (buf : Mem UInt8)
  | encode (t : Nat)
  | send (t : Nat) (full : Bool)
  | client (connected sendEnable : Bool)

namespace Rssi

def init (shareBuf : Mem UInt8) : Rssi where
  shareBuf := shareBuf
  connected := false
  sendEnable := false
  buf := fun _ _ => 0
  pc := fun _ => .absent
  encoded := none
  senders := []
  handed := []

/-- `process_exception` and the first half of `print_rssi_struct`. -/
def encodeStep (s : Rssi) (t : Nat) : Option Rssi :=
  match s.pc t with
  | .encode =>
    if s.connected then
      let args := printRssiStruct s.shareBuf (s.buf t)
      some { s with
        shareBuf := args.sendBuf
        pc := update s.pc t (.send args.sendBufLen)
        encoded := some (s.buf t) }
    else some { s with pc := update s.pc t (.refused s.connected s.sendEnable) }
  | _ => none

/-- `sendToPc`, which is handed the buffer as it is then. -/
def sendStep (s : Rssi) (t : Nat) (full : Bool) : Option Rssi :=
  match s.pc t with
  | .send length =>
    if s.connected && s.sendEnable then
      some { s with
        sendEnable := full
        pc := update s.pc t .sent
        senders := s.senders ++ [t]
        handed := s.handed ++ [SendArgs.bytes ⟨s.shareBuf, length, 1⟩] }
    else some { s with pc := update s.pc t (.refused s.connected s.sendEnable) }
  | _ => none

def step (s : Rssi) : RssiAct → Option Rssi
  | .message t buf =>
    if s.pc t = .absent then
      some { s with buf := update s.buf t buf, pc := update s.pc t .encode }
    else none
  | .encode t => s.encodeStep t
  | .send t full => s.sendStep t full
  | .client connected sendEnable =>
    some { s with connected := connected, sendEnable := sendEnable }

end Rssi

def rssi (shareBuf : Mem UInt8) : Machine Rssi RssiAct := ⟨Rssi.init shareBuf, Rssi.step⟩

namespace Rssi

variable {m : Mem UInt8} {s s' : Rssi}

-- ---------------------------------------------------------------------------
-- What a step can do
-- ---------------------------------------------------------------------------

inductive Move (s : Rssi) : RssiAct → Rssi → Prop
  | message {t buf} (hpc : s.pc t = .absent) :
    Move s (.message t buf) { s with buf := update s.buf t buf, pc := update s.pc t .encode }
  | encode {t} (hpc : s.pc t = .encode) :
    Move s (.encode t) { s with
      shareBuf := s.shareBuf.write 0 (rssiEncoding (s.buf t))
      pc := update s.pc t (.send (rssiLength (s.buf t)))
      encoded := some (s.buf t) }
  | refuseEncode {t} (hpc : s.pc t = .encode) (hno : s.connected = false) :
    Move s (.encode t) { s with pc := update s.pc t (.refused s.connected s.sendEnable) }
  | send {t full length} (hpc : s.pc t = .send length) (hclient : s.connected = true)
      (hen : s.sendEnable = true) :
    Move s (.send t full) { s with
      sendEnable := full
      pc := update s.pc t .sent
      senders := s.senders ++ [t]
      handed := s.handed ++ [s.shareBuf.read 0 length.toNat] }
  | refuseSend {t full length} (hpc : s.pc t = .send length)
      (hno : (s.connected && s.sendEnable) = false) :
    Move s (.send t full) { s with pc := update s.pc t (.refused s.connected s.sendEnable) }
  | client (connected sendEnable : Bool) :
    Move s (.client connected sendEnable)
      { s with connected := connected, sendEnable := sendEnable }

theorem encodeStep_move (h : s.encodeStep t = some s') : Move s (.encode t) s' := by
  cases hpc : s.pc t with
  | encode =>
    simp only [encodeStep, hpc, printRssiStruct_sendBuf, printRssiStruct_sendBufLen] at h
    split at h <;> cases h
    · exact .encode hpc
    · rename_i hno
      exact .refuseEncode hpc (by simpa using hno)
  | _ => simp [encodeStep, hpc] at h

theorem sendStep_move (h : s.sendStep t full = some s') : Move s (.send t full) s' := by
  cases hpc : s.pc t with
  | send length =>
    simp only [sendStep, hpc] at h
    split at h <;> cases h
    · rename_i hready
      obtain ⟨hclient, hen⟩ : s.connected = true ∧ s.sendEnable = true := by simpa using hready
      exact .send hpc hclient hen
    · rename_i hno
      exact .refuseSend hpc (by simpa using hno)
  | _ => simp [sendStep, hpc] at h

theorem step_move (h : (rssi m).step s act = some s') : Move s act s' := by
  cases act with
  | message t buf =>
    simp only [rssi, step] at h
    split at h <;> cases h
    rename_i hpc
    exact .message hpc
  | encode t => exact encodeStep_move h
  | send t full => exact sendStep_move h
  | client connected sendEnable =>
    cases h
    exact .client connected sendEnable

-- ---------------------------------------------------------------------------
-- The frames that are handed out
-- ---------------------------------------------------------------------------

/-- The frames handed to `send` are those of the messages whose threads called
it, each of these threads called it once, and a thread ends without that only
if it saw no client or sending disabled. -/
structure Unmixed (s : Rssi) : Prop where
  handed : s.handed = s.senders.map fun t => rssiFrame (s.buf t)
  nodup : s.senders.Nodup
  mem_senders : ∀ t, t ∈ s.senders ↔ s.pc t = .sent
  refused : ∀ t connected sendEnable, s.pc t = .refused connected sendEnable →
    connected = false ∨ sendEnable = false

/-- A thread that calls `send` has its own frame at the start of what was encoded last. -/
def Fresh (s : Rssi) : RssiAct → Prop
  | .send t _ => s.connected = true → s.sendEnable = true →
    ∀ last ∈ s.encoded, rssiFrame (s.buf t) <+: rssiEncoding last
  | .message _ _ | .encode _ | .client _ _ => True

instance (s : Rssi) : (act : RssiAct) → Decidable (Fresh s act)
  | .send _ _ => inferInstanceAs (Decidable (_ → _ → _))
  | .message _ _ | .encode _ | .client _ _ => isTrue trivial

/-- The buffer begins with what was encoded last, and a thread that is about to
call `sendToPc` has the length of its own frame. -/
structure Encoded (s : Rssi) : Prop where
  shareBuf : ∀ last ∈ s.encoded, ∃ m : Mem UInt8, s.shareBuf = m.write 0 (rssiEncoding last)
  send : ∀ t length, s.pc t = .send length →
    length = rssiLength (s.buf t) ∧ ∃ last, s.encoded = some last

theorem encoded_init : Encoded (init m) := ⟨nofun, fun _ _ => nofun⟩

theorem Encoded.leave (hi : Encoded s) {t : Nat} {place : RssiPc}
    (hplace : ∀ length, place ≠ .send length) :
    ∀ u length, update s.pc t place u = .send length →
      length = rssiLength (s.buf u) ∧ ∃ last, s.encoded = some last :=
  (Function.forall_update_iff s.pc fun u place => ∀ length, place = .send length →
    length = rssiLength (s.buf u) ∧ ∃ last, s.encoded = some last).mpr
    ⟨fun length h => absurd h (hplace length), fun u _ => hi.send u⟩

theorem Encoded.step (hi : Encoded s) (h : Move s act s') : Encoded s' := by
  cases h with
  | @message t buf hpc =>
    refine ⟨hi.shareBuf, fun u length hu => ?_⟩
    have hut : u ≠ t := by
      rintro rfl
      simp at hu
    simp only [Function.update_of_ne hut] at hu ⊢
    exact hi.send u length hu
  | @encode t hpc =>
    refine ⟨fun last hlast => ?_, ?_⟩
    · obtain rfl := Option.some.inj hlast
      exact ⟨_, rfl⟩
    · refine (Function.forall_update_iff s.pc fun u place => ∀ length, place = .send length →
        length = rssiLength (s.buf u) ∧ ∃ last, some (s.buf t) = some last).mpr
        ⟨fun length h => ?_, fun u _ length hu => ⟨(hi.send u length hu).1, _, rfl⟩⟩
      exact ⟨(RssiPc.send.inj h).symm, _, rfl⟩
  | refuseEncode hpc | refuseSend hpc => exact ⟨hi.shareBuf, hi.leave nofun⟩
  | send hpc => exact ⟨hi.shareBuf, hi.leave nofun⟩
  | client => exact ⟨hi.shareBuf, hi.send⟩

theorem encoded_of_reaches (h : (rssi m).ReachesUnder C s) : Encoded s :=
  h.invariant encoded_init fun _ _ _ _ hi _ hs => hi.step (step_move hs)

/-- What a thread hands out is its own frame exactly when the condition is met. -/
theorem Encoded.handed_iff (hi : Encoded s) (hpc : s.pc t = .send length) :
    s.shareBuf.read 0 length.toNat = rssiFrame (s.buf t) ↔
      ∀ last ∈ s.encoded, rssiFrame (s.buf t) <+: rssiEncoding last := by
  obtain ⟨hlength, last, hlast⟩ := hi.send t length hpc
  obtain ⟨m, hm⟩ := hi.shareBuf last hlast
  rw [hm, hlength, handed_eq_iff, hlast]
  simp

theorem unmixed_init : Unmixed (init m) := ⟨rfl, .nil, by simp [init], by simp [init]⟩

theorem Unmixed.mem_senders_update (hi : Unmixed s) {t : Nat} {place : RssiPc}
    (hold : s.pc t ≠ .sent) (hnew : place ≠ .sent) (u : Nat) :
    u ∈ s.senders ↔ update s.pc t place u = .sent := by
  rw [hi.mem_senders]
  exact iff_of_eq (map_update (· = RssiPc.sent) u (by simp [hold, hnew])).symm

theorem Unmixed.refused_update (hi : Unmixed s) (t : Nat) {place : RssiPc}
    (hplace : ∀ connected sendEnable, place = .refused connected sendEnable →
      connected = false ∨ sendEnable = false) :
    ∀ u connected sendEnable, update s.pc t place u = .refused connected sendEnable →
      connected = false ∨ sendEnable = false :=
  (Function.forall_update_iff s.pc fun _ place => ∀ connected sendEnable,
    place = .refused connected sendEnable → connected = false ∨ sendEnable = false).mpr
    ⟨hplace, fun u _ => hi.refused u⟩

theorem Unmixed.step (hi : Unmixed s) (he : Encoded s) (hc : Fresh s act) (h : Move s act s') :
    Unmixed s' := by
  cases h with
  | @message t buf hpc =>
    refine ⟨?_, hi.nodup, hi.mem_senders_update (by rw [hpc]; simp) (by simp),
      hi.refused_update t (by simp)⟩
    rw [hi.handed]
    refine List.map_congr_left fun u hu => ?_
    have hut : u ≠ t := by
      rintro rfl
      simp [(hi.mem_senders u).mp hu] at hpc
    simp only [Function.update_of_ne hut]
  | @encode t hpc =>
    exact ⟨hi.handed, hi.nodup, hi.mem_senders_update (by rw [hpc]; simp) (by simp),
      hi.refused_update t (by simp)⟩
  | @refuseEncode t hpc hno =>
    refine ⟨hi.handed, hi.nodup, hi.mem_senders_update (by rw [hpc]; simp) (by simp),
      hi.refused_update t ?_⟩
    rintro _ _ ⟨⟩
    exact .inl hno
  | @refuseSend t full length hpc hno =>
    refine ⟨hi.handed, hi.nodup, hi.mem_senders_update (by rw [hpc]; simp) (by simp),
      hi.refused_update t ?_⟩
    rintro _ _ ⟨⟩
    exact Bool.and_eq_false_iff.mp hno
  | @send t full length hpc hclient hen =>
    have hnew : t ∉ s.senders := by simp [hi.mem_senders, hpc]
    refine ⟨?_, ?_, ?_, hi.refused_update t (by simp)⟩
    · rw [List.map_append, ← hi.handed, (he.handed_iff hpc).mpr (hc hclient hen)]
      rfl
    · rw [← List.concat_eq_append]
      exact .concat hnew hi.nodup
    · refine (Function.forall_update_iff s.pc fun u place => u ∈ s.senders ++ [t] ↔ place = .sent).mpr
        ⟨?_, fun u hut => ?_⟩
      · simp
      · simp [hut, hi.mem_senders]
  | client => exact ⟨hi.handed, hi.nodup, hi.mem_senders, hi.refused⟩

theorem not_unmixed (hi : Unmixed s) (he : Encoded s) (hc : ¬ Fresh s act) (h : Move s act s') :
    ¬ Unmixed s' := by
  intro hs'
  cases h with
  | message | encode | refuseEncode | client => exact hc trivial
  | refuseSend hpc hno =>
    refine hc fun hclient hen => ?_
    simp [hclient, hen] at hno
  | send hpc =>
    have hlast := hs'.handed
    rw [List.map_append, ← hi.handed] at hlast
    have hown := List.append_cancel_left hlast
    simp only [List.map_cons, List.map_nil, List.cons.injEq, and_true] at hown
    exact hc fun _ _ => (he.handed_iff hpc).mp hown

/-- No frame is mixed in the runs in which each thread, when it calls `send`,
has its own frame at the start of what was encoded last, and in no others. -/
theorem unmixed_iff (hs : (rssi m).run acts = some s) :
    (rssi m).Throughout Unmixed (init m) acts ↔ (rssi m).Along Fresh (init m) acts :=
  have keep : ∀ {s}, (rssi m).ReachesUnder Fresh s → Unmixed s := fun hr =>
    hr.invariant unmixed_init fun _ _ _ hr hi hc hs => hi.step (encoded_of_reaches hr) hc (step_move hs)
  Machine.run_throughout_iff (fun _ hr => keep hr)
    (fun _ _ _ hr hc hs => not_unmixed (keep hr) (encoded_of_reaches hr) hc (step_move hs)) hs

def oneByte (b : UInt8) : Mem UInt8 := fun i => if i = 8 then 1 else if i = 12 then b else 0

def oneAfterTheOther : List RssiAct :=
  [.client true true, .message 0 (oneByte 3), .encode 0, .send 0 true,
    .message 1 (oneByte 5), .encode 1, .send 1 true]

theorem oneAfterTheOther_unmixed :
    (rssi fun _ => 0).Throughout Unmixed (init fun _ => 0) oneAfterTheOther := by
  obtain ⟨s, hs⟩ := Option.isSome_iff_exists.mp
    (show ((rssi fun _ => 0).run oneAfterTheOther).isSome = true by decide +kernel)
  exact (unmixed_iff hs).mpr (by decide +kernel)

def bothEncoded : List RssiAct :=
  [.client true true, .message 0 (oneByte 3), .message 1 (oneByte 5), .encode 0, .encode 1,
    .send 0 true, .send 1 true]

theorem bothEncoded_mixed : ¬ ∀ m s, (rssi m).Reaches s → Unmixed s := by
  intro h
  obtain ⟨s, hs, hp⟩ := Machine.exists_reaches (M := rssi fun _ => 0)
    (p := fun s => decide (s.handed ≠ s.senders.map fun t => rssiFrame (s.buf t))) bothEncoded
    (by decide +kernel)
  exact of_decide_eq_true hp (h _ s hs).handed

end Rssi

end DevAdapter
