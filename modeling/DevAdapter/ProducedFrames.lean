import DevAdapter.Producers
import DevAdapter.Server.LengthRule

/-!
# Produced frames

Every producer hands a frame to `sendToPc`: a length word that counts the rest
of the buffer, the type it also passes as an argument, and its payload. So the
length rule of `receive` splits what the producers send, in any mix, into the
buffers they sent, and the payloads come out of them unchanged.
-/

namespace DevAdapter

open OffsetMemory Word32 Framing

-- ---------------------------------------------------------------------------
-- Buffers that hold a frame
-- ---------------------------------------------------------------------------

/-- The buffer holds the frame, of the type that is passed beside it. -/
structure SendArgs.Encodes (a : SendArgs) (f : Frame) : Prop where
  bytes : a.bytes = f.encode
  len : a.sendBufLen = f.encode.length
  type : ofLe32 (f.body.take 4) = a.type

theorem SendArgs.read_of_bytes {a : SendArgs} {f : Frame} (h : a.Encodes f) :
    a.sendBuf.read 0 f.encode.length = f.encode := by
  have hread := h.bytes
  rw [SendArgs.bytes, h.len] at hread
  exact hread

theorem SendArgs.Encodes.lengthWord {a : SendArgs} {f : Frame} (h : a.Encodes f) :
    int32At a.sendBuf 0 = a.sendBufLen - 4 := by
  have hlt := f.lt
  have hword : a.sendBuf.read 0 4 = le32 f.body.length := by
    rw [← take_read a.sendBuf 0 (n := f.encode.length) (by simp), SendArgs.read_of_bytes h,
      Frame.encode, List.take_left' (length_le32 _)]
  rw [int32At, hword, ofLe32_le32_of_range (by omega) (by omega), h.len, f.length_encode]
  omega

theorem SendArgs.Encodes.typeWord {a : SendArgs} {f : Frame} (h : a.Encodes f) :
    int32At a.sendBuf 4 = a.type := by
  have h4 := f.four_le
  have hbody : a.sendBuf.read 4 f.body.length = f.body := by
    have hdrop := drop_read a.sendBuf 0 (k := 4) (n := f.encode.length) (by simp)
    rw [SendArgs.read_of_bytes h, Frame.encode, List.drop_left' (length_le32 _)] at hdrop
    simpa using hdrop.symm
  rw [int32At, ← take_read a.sendBuf 4 h4, hbody, h.type]

def Frame.of (type : Int) (payload : List UInt8) (h : payload.length + 4 < 2 ^ 31) : Frame where
  body := le32 type ++ payload
  four_le := by simp
  lt := by
    rw [List.length_append, length_le32]
    omega

theorem Frame.type_of {type : Int} {payload : List UInt8} {h : payload.length + 4 < 2 ^ 31}
    (htype : -2 ^ 31 ≤ type) (htype' : type < 2 ^ 31) :
    ofLe32 ((Frame.of type payload h).body.take 4) = type := by
  rw [Frame.of, List.take_left' (length_le32 _), ofLe32_le32_of_range htype htype']

theorem Frame.encode_of (type : Int) (payload : List UInt8) (h : payload.length + 4 < 2 ^ 31) :
    (Frame.of type payload h).encode = le32 (payload.length + 4) ++ (le32 type ++ payload) := by
  have hlen : (((le32 type ++ payload).length : Nat) : Int) = payload.length + 4 := by
    rw [List.length_append, length_le32]
    omega
  rw [Frame.encode, Frame.of, hlen]

@[simp] theorem Frame.length_of (type : Int) (payload : List UInt8)
    (h : payload.length + 4 < 2 ^ 31) :
    (Frame.of type payload h).encode.length = payload.length + 8 := by
  rw [Frame.encode_of]
  simp only [List.length_append, length_le32]
  omega

theorem Frame.drop_of (type : Int) (payload : List UInt8) (h : payload.length + 4 < 2 ^ 31) :
    (Frame.of type payload h).encode.drop 8 = payload := by
  rw [Frame.encode_of, ← List.append_assoc]
  exact List.drop_left' (by simp)

-- ---------------------------------------------------------------------------
-- The producers
-- ---------------------------------------------------------------------------

/-- A call of one of the producers, with the buffers it works on. -/
inductive Product
  | stateInquiry (tempBuf statBuf : Mem UInt8) (statBufLen : Nat) (type : Int)
  | rfMfState (tempBuf statBuf : Mem UInt8) (statBufLen : Nat)
  | rssi (shareBuf buf : Mem UInt8)
  | iq (g : DmaPara) (buf : Mem UInt8) (bufLen : Nat)

namespace Product

def args : Product → Option SendArgs
  | .stateInquiry tempBuf statBuf statBufLen type =>
    some (sendStateInquiry tempBuf statBuf statBufLen type)
  | .rfMfState tempBuf statBuf statBufLen => some (sendRfMfState tempBuf statBuf statBufLen)
  | .rssi shareBuf buf => some (printRssiStruct shareBuf buf)
  | .iq g buf bufLen => (iqRegisterCallback g buf bufLen).2

/-- It sends: `IQ_register_callback` does so for one buffer in 51. -/
def Sends : Product → Prop
  | .stateInquiry _ _ _ _ | .rfMfState _ _ _ | .rssi _ _ => True
  | .iq g _ _ => 50 ≤ g.slowCnt

/-- The lengths that stay within an `int`, and a `type` that is one. -/
def Valid : Product → Prop
  | .stateInquiry _ _ statBufLen type => statBufLen + 20 < 2 ^ 31 ∧ -2 ^ 31 ≤ type ∧ type < 2 ^ 31
  | .rfMfState _ _ statBufLen => statBufLen + 20 < 2 ^ 31
  | .rssi _ buf => 0 ≤ int32At buf 8 ∧ int32At buf 8 ≤ maxRssiNo
  | .iq _ _ bufLen => bufLen + 20 < 2 ^ 31

def Recovered : Product → List UInt8 → Prop
  | .stateInquiry _ statBuf statBufLen _, frame | .rfMfState _ statBuf statBufLen, frame =>
    frame.drop 8 = statBuf.read 0 statBufLen
  | .rssi _ buf, frame =>
    ofLe32 ((frame.drop 8).take 4) = int32At buf 0 ∧
      ofLe32 ((frame.drop 12).take 4) = int32At buf 4 ∧
      ofLe32 ((frame.drop 16).take 4) = int32At buf 8 ∧
      frame.drop 20 = buf.read 12 (int32At buf 8).toNat
  | .iq _ buf bufLen, frame => frame.drop 8 = buf.read 8 bufLen

end Product

theorem SendArgs.Encodes.of_write {a : SendArgs} {f : Frame} (m : Mem UInt8)
    (hbuf : a.sendBuf = m.write 0 f.encode) (hlen : a.sendBufLen = f.encode.length)
    (htype : ofLe32 (f.body.take 4) = a.type) : a.Encodes f := by
  refine ⟨?_, hlen, htype⟩
  rw [SendArgs.bytes, hbuf, hlen, Int.toNat_natCast, read_write_self]

theorem stateFrame_encodes {n : Nat} {type : Int} (tempBuf statBuf : Mem UInt8)
    (hn : (statBuf.read 0 n).length + 4 < 2 ^ 31) (hsmall : n + 20 < 2 ^ 31)
    (htype : -2 ^ 31 ≤ type) (htype' : type < 2 ^ 31) :
    (stateFrame tempBuf statBuf n type).Encodes (.of type (statBuf.read 0 n) hn) := by
  refine .of_write tempBuf ?_ ?_ (Frame.type_of htype htype')
  · have h1 := write_write_append tempBuf 0 (le32 (n + 4)) (le32 type)
    have h2 := write_write_append tempBuf 0 (le32 (n + 4) ++ le32 type) (statBuf.read 0 n)
    rw [List.length_append, length_le32, length_le32] at h2
    rw [length_le32] at h1
    rw [Frame.encode_of, length_read, ← List.append_assoc, ← h2, ← h1]
    rfl
  · have hlen : wrap32 ((n : Int) + 4 + 4) = n + 8 := by
      rw [wrap32_eq (by omega) (by omega)]
      omega
    rw [Frame.length_of, length_read, stateFrame, hlen]
    rfl

def rssiPayload (buf : Mem UInt8) : List UInt8 :=
  le32 (int32At buf 0) ++ (le32 (int32At buf 4) ++ (le32 (int32At buf 8) ++
    buf.read 12 (int32At buf 8).toNat))

@[simp] theorem length_rssiPayload (buf : Mem UInt8) :
    (rssiPayload buf).length = 12 + (int32At buf 8).toNat := by
  simp only [rssiPayload, List.length_append, length_le32, length_read]
  omega

/-- What `print_rssi_struct` stores at the start of the buffer. -/
def rssiEncoding (buf : Mem UInt8) : List UInt8 :=
  le32 (wrap32 (4 + 4 + 4 + int32At buf 8) + 4) ++ (le32 1 ++ rssiPayload buf)

@[simp] theorem length_rssiEncoding (buf : Mem UInt8) :
    (rssiEncoding buf).length = 20 + (int32At buf 8).toNat := by
  simp only [rssiEncoding, List.length_append, length_le32, length_rssiPayload]
  omega

theorem printRssiStruct_sendBuf (shareBuf buf : Mem UInt8) :
    (printRssiStruct shareBuf buf).sendBuf = shareBuf.write 0 (rssiEncoding buf) := by
  -- the six stores lie one behind the other
  rw [rssiEncoding, rssiPayload]
  simp only [← write_write_append, length_le32]
  rfl

theorem printRssiStruct_encodes (shareBuf buf : Mem UInt8)
    (hn : (rssiPayload buf).length + 4 < 2 ^ 31) (h0 : 0 ≤ int32At buf 8)
    (hmax : int32At buf 8 ≤ maxRssiNo) :
    (printRssiStruct shareBuf buf).Encodes (.of 1 (rssiPayload buf) hn) := by
  have hmax : int32At buf 8 ≤ 60000 := hmax
  have hmsg : wrap32 (4 + 4 + 4 + int32At buf 8) = 12 + int32At buf 8 :=
    wrap32_eq (by omega) (by omega)
  refine .of_write shareBuf ?_ ?_ (Frame.type_of (by omega) (by omega))
  · have hword : ((rssiPayload buf).length : Int) + 4 = 12 + int32At buf 8 + 4 := by
      rw [length_rssiPayload]
      omega
    rw [printRssiStruct_sendBuf, rssiEncoding, Frame.encode_of, hword, hmsg]
  · have hlen : wrap32 (12 + int32At buf 8 + 4 + 4) = 20 + int32At buf 8 := by
      rw [wrap32_eq (by omega) (by omega)]
      omega
    have hsize : (printRssiStruct shareBuf buf).sendBufLen = 20 + int32At buf 8 := by
      simp only [printRssiStruct, hmsg, hlen]
    rw [hsize, Frame.length_of, length_rssiPayload]
    omega

theorem iqRegisterCallback_type {g : DmaPara} {buf : Mem UInt8} {n : Int} {a : SendArgs}
    (ha : (iqRegisterCallback g buf n).2 = some a) : 0 ≤ a.type ∧ a.type ≤ 4 := by
  unfold iqRegisterCallback at ha
  split at ha
  · cases ha
  · obtain rfl := Option.some.inj ha
    dsimp only
    split
    · omega
    · split <;> omega

theorem iqRegisterCallback_encodes {g : DmaPara} {buf : Mem UInt8} {n : Nat} {a : SendArgs}
    (ha : (iqRegisterCallback g buf n).2 = some a) (hn : (buf.read 8 n).length + 4 < 2 ^ 31)
    (hsmall : n + 20 < 2 ^ 31) : a.Encodes (.of a.type (buf.read 8 n) hn) := by
  obtain ⟨htype, htype'⟩ := iqRegisterCallback_type ha
  have hlen : wrap32 ((n : Int) + 4 + 4) = n + 8 := by
    rw [wrap32_eq (by omega) (by omega)]
    omega
  have hargs : a.sendBufLen = (8 + n : Nat) ∧
      a.sendBuf = buf.write 0 (le32 (n + 4) ++ le32 a.type) := by
    unfold iqRegisterCallback at ha
    split at ha
    · cases ha
    · obtain rfl := Option.some.inj ha
      refine ⟨by dsimp only; omega, ?_⟩
      rw [← write_write_append, length_le32]
      rfl
  have hpayload : (buf.write 0 (le32 (n + 4) ++ le32 a.type)).read 8 n = buf.read 8 n :=
    read_write_of_disjoint _ _ _ (.inr (by simp))
  have hheader : (buf.write 0 (le32 (n + 4) ++ le32 a.type)).read 0 8 =
      le32 (n + 4) ++ le32 a.type := by
    have hself := read_write_self buf 0 (le32 (n + 4) ++ le32 a.type)
    rwa [List.length_append, length_le32, length_le32] at hself
  refine ⟨?_, ?_, Frame.type_of (by omega) (by omega)⟩
  · rw [SendArgs.bytes, hargs.1, hargs.2, Int.toNat_natCast, read_add, hheader,
      Frame.encode_of, length_read, List.append_assoc]
    exact congrArg _ (congrArg _ hpayload)
  · rw [hargs.1, Frame.length_of, length_read, Nat.add_comm]

theorem rssiPayload_parts (buf : Mem UInt8) :
    ofLe32 ((rssiPayload buf).take 4) = int32At buf 0 ∧
      ofLe32 (((rssiPayload buf).drop 4).take 4) = int32At buf 4 ∧
      ofLe32 (((rssiPayload buf).drop 8).take 4) = int32At buf 8 ∧
      (rssiPayload buf).drop 12 = buf.read 12 (int32At buf 8).toNat := by
  have hskip : ∀ (k : Nat) (x : Int) (bs : List UInt8), (le32 x ++ bs).drop (4 + k) = bs.drop k :=
    fun k x bs => by rw [← List.drop_drop, List.drop_left' (length_le32 x)]
  have hword : ∀ (off : Int) (bs : List UInt8),
      ofLe32 ((le32 (int32At buf off) ++ bs).take 4) = int32At buf off :=
    fun off bs => by rw [List.take_left' (length_le32 _), int32At, ofLe32_le32_ofLe32]
  refine ⟨hword 0 _, ?_, ?_, ?_⟩
  · rw [rssiPayload, hskip 0, List.drop_zero, hword]
  · rw [rssiPayload, hskip 4, hskip 0, List.drop_zero, hword]
  · rw [rssiPayload, hskip 8, hskip 4, hskip 0, List.drop_zero]

namespace Product

theorem exists_frame {p : Product} {a : SendArgs} (hp : p.Valid) (ha : p.args = some a) :
    ∃ f : Frame, a.Encodes f ∧ f.encode.length < 2 ^ 31 ∧ p.Recovered f.encode := by
  cases p with
  | stateInquiry tempBuf statBuf n type =>
    obtain ⟨hn, htype, htype'⟩ := hp
    obtain rfl := Option.some.inj ha
    have hpayload : (statBuf.read 0 n).length + 4 < 2 ^ 31 := by rw [length_read]; omega
    refine ⟨_, stateFrame_encodes tempBuf statBuf hpayload hn htype htype', ?_, Frame.drop_of _ _ _⟩
    rw [Frame.length_of, length_read]
    omega
  | rfMfState tempBuf statBuf n =>
    obtain rfl := Option.some.inj ha
    have hn : n + 20 < 2 ^ 31 := hp
    have hpayload : (statBuf.read 0 n).length + 4 < 2 ^ 31 := by rw [length_read]; omega
    refine ⟨_, stateFrame_encodes tempBuf statBuf hpayload hn (by omega) (by omega), ?_,
      Frame.drop_of _ _ _⟩
    rw [Frame.length_of, length_read]
    omega
  | rssi shareBuf buf =>
    obtain ⟨h0, hmax⟩ := hp
    obtain rfl := Option.some.inj ha
    have hmax' : int32At buf 8 ≤ 60000 := hmax
    have hpayload : (rssiPayload buf).length + 4 < 2 ^ 31 := by rw [length_rssiPayload]; omega
    refine ⟨_, printRssiStruct_encodes shareBuf buf hpayload h0 hmax, ?_, ?_⟩
    · rw [Frame.length_of, length_rssiPayload]
      omega
    · have hdrop : ∀ k, (Frame.of 1 (rssiPayload buf) hpayload).encode.drop (8 + k) =
          (rssiPayload buf).drop k := fun k => by rw [← List.drop_drop, Frame.drop_of]
      simp only [Recovered, hdrop 0, hdrop 4, hdrop 8, hdrop 12, List.drop_zero]
      exact rssiPayload_parts buf
  | iq g buf n =>
    have hn : n + 20 < 2 ^ 31 := hp
    have hpayload : (buf.read 8 n).length + 4 < 2 ^ 31 := by rw [length_read]; omega
    refine ⟨_, iqRegisterCallback_encodes ha hpayload hn, ?_, Frame.drop_of _ _ _⟩
    rw [Frame.length_of, length_read]
    omega

/-- A buffer that is sent begins with the length of the rest and the type that
is passed, and gives the payload back. -/
structure Agrees (p : Product) (a : SendArgs) : Prop where
  lengthWord : int32At a.sendBuf 0 = a.sendBufLen - 4
  typeWord : int32At a.sendBuf 4 = a.type
  payload : p.Recovered a.bytes

theorem agrees {p : Product} {a : SendArgs} (hp : p.Valid) (ha : p.args = some a) :
    p.Agrees a := by
  obtain ⟨f, hencodes, -, hpayload⟩ := exists_frame hp ha
  rw [← hencodes.bytes] at hpayload
  exact ⟨hencodes.lengthWord, hencodes.typeWord, hpayload⟩

theorem args_isSome_iff (p : Product) : p.args.isSome = true ↔ p.Sends := by
  cases p with
  | stateInquiry | rfMfState | rssi => exact iff_of_true rfl trivial
  | iq g buf n =>
    rw [args, iqRegisterCallback, Sends]
    split
    · exact iff_of_false nofun (by omega)
    · exact iff_of_true rfl (by omega)

def sent (ps : List Product) : List SendArgs := ps.filterMap args

theorem sent_frames {ps : List Product} (hp : ∀ p ∈ ps, p.Valid) :
    ∃ fs : List Frame, (sent ps).map SendArgs.bytes = fs.map Frame.encode ∧
      ∀ f ∈ fs, f.encode.length < 2 ^ 31 := by
  induction ps with
  | nil => exact ⟨[], rfl, nofun⟩
  | cons p ps ih =>
    obtain ⟨fs, hfs, hsmall⟩ := ih fun q hq => hp q (List.mem_cons_of_mem _ hq)
    cases ha : p.args with
    | none => exact ⟨fs, by simpa only [sent, List.filterMap_cons, ha] using hfs, hsmall⟩
    | some a =>
      obtain ⟨f, hencodes, hlt, -⟩ := exists_frame (hp p (by simp)) ha
      refine ⟨f :: fs, ?_, List.forall_mem_cons.mpr ⟨hlt, hsmall⟩⟩
      simp only [sent, List.filterMap_cons, ha, List.map_cons, hencodes.bytes]
      exact congrArg _ hfs

/-- The producers agree with the length rule of `receive`: each of them sends,
when it is to, a buffer that carries its own length and type, and any mix of
them is split into them again. -/
theorem produced_split {ps : List Product} (hp : ∀ p ∈ ps, p.Valid) :
    (∀ p ∈ ps, (p.args.isSome = true ↔ p.Sends) ∧ ∀ a, p.args = some a → p.Agrees a) ∧
      ∀ fuel, (sent ps).length < fuel →
        splitFrames fuel ((sent ps).flatMap SendArgs.bytes) =
          some ((sent ps).map SendArgs.bytes, []) := by
  refine ⟨fun p h => ⟨args_isSome_iff p, fun a ha => agrees (hp p h) ha⟩, fun fuel hfuel => ?_⟩
  obtain ⟨fs, hfs, hsmall⟩ := sent_frames hp
  have hlen : (sent ps).length = fs.length := by
    simpa only [List.length_map] using congrArg List.length hfs
  rw [List.flatMap_def, hfs, ← List.flatMap_def]
  exact splitFrames_stream hsmall (by omega)

def threeProducts : List Product :=
  [.stateInquiry (fun _ => 7) (fun _ => 123) 2 41, .rssi (fun _ => 7) (fun _ => 0),
    .iq ⟨50, ⟨true, false, some 0x40, true⟩⟩ (fun _ => 9) 3]

theorem threeProducts_split :
    (∀ p ∈ threeProducts, (p.args.isSome = true ↔ p.Sends) ∧ ∀ a, p.args = some a → p.Agrees a) ∧
      ∀ fuel, (sent threeProducts).length < fuel →
        splitFrames fuel ((sent threeProducts).flatMap SendArgs.bytes) =
          some ((sent threeProducts).map SendArgs.bytes, []) :=
  produced_split (by
    intro p hp
    simp only [threeProducts, List.mem_cons, List.not_mem_nil, or_false] at hp
    rcases hp with rfl | rfl | rfl <;> simp only [Valid] <;> decide +kernel)

end Product

def Produced (buf : List UInt8) : Prop := ∃ p a, Product.Valid p ∧ p.args = some a ∧ a.bytes = buf

theorem Produced.frame {buf : List UInt8} (h : Produced buf) :
    ∃ f : Frame, f.encode = buf ∧ f.encode.length < 2 ^ 31 := by
  obtain ⟨p, a, hp, ha, hbytes⟩ := h
  obtain ⟨f, hencodes, hsmall, -⟩ := Product.exists_frame hp ha
  exact ⟨f, hencodes.bytes.symm.trans hbytes, hsmall⟩

end DevAdapter
