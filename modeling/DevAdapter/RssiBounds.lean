import DevAdapter.RssiFrames

/-!
# The bounds of RSSI messages

`print_rssi_struct` gets the length of a message and does not look at it: it
copies as many bytes as the message says itself, into a buffer of
`MAXSHAREBUF_SIZE` bytes. Here its loads and stores are recorded one by one.
-/

namespace DevAdapter

open OffsetMemory Word32

def maxShareBufSize : Nat := 1024 * 60

/-- What `print_rssi_struct` has done so far: the loads from the message and the
stores to `shareInfo->buf_`, by offset and number of bytes, and what it sent. -/
structure RssiRun where
  shareBuf : Mem UInt8
  loads : List (Int × Nat)
  stores : List (Int × Nat)
  sent : Option SendArgs

namespace RssiRun

def load (buf : Mem UInt8) (off : Int) (n : Nat) : StateM RssiRun (List UInt8) := fun r =>
  (buf.read off n, { r with loads := r.loads ++ [(off, n)] })

def loadWord (buf : Mem UInt8) (off : Int) : StateM RssiRun Int := ofLe32 <$> load buf off 4

def store (off : Int) (bytes : List UInt8) : StateM RssiRun Unit := fun r =>
  ((), { r with
    shareBuf := r.shareBuf.write off bytes
    stores := r.stores ++ [(off, bytes.length)] })

def sendToPc (length type : Int) : StateM RssiRun Unit := fun r =>
  ((), { r with sent := some ⟨r.shareBuf, length, type⟩ })

/-- `print_rssi_struct`, statement by statement; `memcpy` takes its length as a `size_t`. -/
def printRssiStruct (buf : Mem UInt8) : StateM RssiRun Unit := do
  let msgLen := wrap32 (4 + 4 + 4 + (← loadWord buf 8))
  let length := wrap32 (msgLen + 4 + 4)
  store 0 (le32 (msgLen + 4))
  store 4 (le32 1)
  store 8 (le32 (← loadWord buf 0))
  store 12 (le32 (← loadWord buf 4))
  store 16 (le32 (← loadWord buf 8))
  let n ← loadWord buf 8
  store 20 (← load buf 12 (sizeT n))
  sendToPc length 1

def init (shareBuf : Mem UInt8) : RssiRun := ⟨shareBuf, [], [], none⟩

def of (shareBuf buf : Mem UInt8) : RssiRun := (printRssiStruct buf (init shareBuf)).2

theorem loads_of (shareBuf buf : Mem UInt8) : (of shareBuf buf).loads =
    [(8, 4), (0, 4), (4, 4), (8, 4), (8, 4), (12, sizeT (int32At buf 8))] := rfl

theorem stores_of (shareBuf buf : Mem UInt8) : (of shareBuf buf).stores =
    [(0, 4), (4, 4), (8, 4), (12, 4), (16, 4), (20, sizeT (int32At buf 8))] := by
  have hstores : (of shareBuf buf).stores = [(0, (le32 _).length), (4, (le32 _).length),
      (8, (le32 _).length), (12, (le32 _).length), (16, (le32 _).length),
      (20, (buf.read 12 (sizeT (int32At buf 8))).length)] := rfl
  simpa only [length_le32, length_read] using hstores

/-- A message that names no negative length is sent as the producers' model has it. -/
theorem sent_of (shareBuf buf : Mem UInt8) (h : 0 ≤ int32At buf 8) :
    (of shareBuf buf).sent = some (DevAdapter.printRssiStruct shareBuf buf) := by
  have hsize := sizeT_of_nonneg h (int32At_range buf 8).2
  simp only [DevAdapter.printRssiStruct, ← hsize]
  rfl

/-- The message is read inside its `bufLen` bytes, the buffer is written inside
its own, every byte that is sent has been written, and nothing is sent of a
message whose length does not fit in it. -/
structure Bounded (bufLen : Nat) (r : RssiRun) (rssiBufLen : Int) : Prop where
  loads : ∀ a ∈ r.loads, 0 ≤ a.1 ∧ a.1 + a.2 ≤ bufLen
  stores : ∀ a ∈ r.stores, 0 ≤ a.1 ∧ a.1 + a.2 ≤ maxShareBufSize
  sent : ∀ args ∈ r.sent, ∀ i : Int, 0 ≤ i → i < args.sendBufLen →
    ∃ a ∈ r.stores, a.1 ≤ i ∧ i < a.1 + a.2
  rejected : ¬ (0 ≤ rssiBufLen ∧ 12 + rssiBufLen ≤ bufLen) → r.sent = none

/-- The message holds as many bytes as it says, and the buffer can take them. -/
def Fits (bufLen : Nat) (rssiBufLen : Int) : Prop :=
  0 ≤ rssiBufLen ∧ 12 + rssiBufLen ≤ bufLen ∧ 20 + rssiBufLen ≤ maxShareBufSize

instance (bufLen : Nat) (rssiBufLen : Int) : Decidable (Fits bufLen rssiBufLen) :=
  inferInstanceAs (Decidable (_ ∧ _))

theorem Fits.of_bounded {shareBuf buf : Mem UInt8} {bufLen : Nat}
    (h : Bounded bufLen (of shareBuf buf) (int32At buf 8)) : Fits bufLen (int32At buf 8) := by
  have hrange := int32At_range buf 8
  have hload := h.loads (12, sizeT (int32At buf 8)) (by simp [loads_of])
  have hstore := h.stores (20, sizeT (int32At buf 8)) (by simp [stores_of])
  have hsize := cast_sizeT (int32At buf 8)
  simp only [maxShareBufSize, Fits] at hload hstore ⊢
  omega

theorem loads_inside (shareBuf : Mem UInt8) {buf : Mem UInt8} {bufLen : Nat}
    (hlow : 0 ≤ int32At buf 8) (hfits : 12 + int32At buf 8 ≤ bufLen) :
    ∀ a ∈ (of shareBuf buf).loads, 0 ≤ a.1 ∧ a.1 + a.2 ≤ bufLen := by
  rw [loads_of, sizeT_of_nonneg hlow (int32At_range buf 8).2]
  simp only [List.forall_mem_cons]
  refine ⟨?_, ?_, ?_, ?_, ?_, ?_, nofun⟩ <;> constructor <;> omega

theorem Fits.bounded {shareBuf buf : Mem UInt8} {bufLen : Nat} (h : Fits bufLen (int32At buf 8)) :
    Bounded bufLen (of shareBuf buf) (int32At buf 8) := by
  obtain ⟨hlow, hmessage, hbuffer⟩ := h
  have hsize := sizeT_of_nonneg hlow (int32At_range buf 8).2
  refine ⟨loads_inside shareBuf hlow hmessage, ?_, ?_, fun hno => absurd ⟨hlow, hmessage⟩ hno⟩
  · rw [stores_of, hsize]
    simp only [List.forall_mem_cons, maxShareBufSize] at hbuffer ⊢
    refine ⟨?_, ?_, ?_, ?_, ?_, ?_, nofun⟩ <;> constructor <;> omega
  · intro args hargs i hi hlen
    rw [sent_of shareBuf buf hlow] at hargs
    obtain rfl := Option.some.inj hargs
    have hle := rssiLength_le buf
    rw [printRssiStruct_sendBufLen] at hlen
    rw [stores_of, hsize]
    simp only [List.mem_cons, List.not_mem_nil, or_false, exists_eq_or_imp, exists_eq_left]
    omega

/-- The bounds hold for a message if and only if it fits. -/
theorem bounded_iff (shareBuf buf : Mem UInt8) (bufLen : Nat) :
    Bounded bufLen (of shareBuf buf) (int32At buf 8) ↔ Fits bufLen (int32At buf 8) :=
  ⟨.of_bounded, Fits.bounded⟩

theorem headerOnly_overread : ¬ ∀ shareBuf buf bufLen,
    Bounded bufLen (of shareBuf buf) (int32At buf 8) := by
  intro h
  have hfits := Fits.of_bounded (h (fun _ => 0) (Rssi.oneByte 0) 12)
  revert hfits
  decide

end RssiRun

end DevAdapter
