import DevAdapter.DmaHandler
import DevAdapter.Lib.Memory
import DevAdapter.Lib.Word

/-!
# The producers of frames

What each caller of `sendToPc` hands to it. Offsets count from the start of the
buffer; what `malloc` leaves in a new one is an argument.
-/

namespace DevAdapter

open OffsetMemory Word32

/-- The arguments `send_buf`, `send_buf_len` and `type` of `sendToPc`. -/
structure SendArgs where
  sendBuf : Mem UInt8
  sendBufLen : Int
  type : Int

def SendArgs.bytes (a : SendArgs) : List UInt8 := a.sendBuf.read 0 a.sendBufLen.toNat

-- ---------------------------------------------------------------------------
-- `dma_handler.c`
-- ---------------------------------------------------------------------------

/-- The fields of `g_dma_para` that `IQ_register_callback` reads. -/
structure DmaPara where
  slowCnt : Nat
  dma : Dma

def DmaPara.init : DmaPara := ⟨0, .init⟩

/-- The header goes over the first eight bytes of the driver's buffer. Only one
buffer in 51 is sent. -/
def iqRegisterCallback (g : DmaPara) (buf : Mem UInt8) (bufLen : Int) :
    DmaPara × Option SendArgs :=
  if g.slowCnt < 50 then ({ g with slowCnt := g.slowCnt + 1 }, none)
  else
    let messageLen := wrap32 (bufLen + 4 + 4)
    let type :=
      if g.dma.csiState = true ∧ g.dma.constellationState = false then 2
      else if g.dma.constellationState = true ∧ g.dma.csiState = false then 4
      else 0
    let buf := buf.write 0 (le32 (bufLen + 4))
    let buf := buf.write 4 (le32 type)
    ({ g with slowCnt := 0 }, some ⟨buf, messageLen, type⟩)

-- ---------------------------------------------------------------------------
-- `procBroker.c`
-- ---------------------------------------------------------------------------

/-- What `*((int32_t*)p)` reads. -/
def int32At (m : Mem UInt8) (off : Int) : Int := ofLe32 (m.read off 4)

/-- A payload behind a header of length and type, in a buffer `tempBuf` of its own. -/
def stateFrame (tempBuf statBuf : Mem UInt8) (statBufLen type : Int) : SendArgs :=
  let length := wrap32 (statBufLen + 4 + 4)
  let tempBuf := tempBuf.write 0 (le32 (statBufLen + 4))
  let tempBuf := tempBuf.write 4 (le32 type)
  let tempBuf := tempBuf.write 8 (statBuf.read 0 statBufLen.toNat)
  ⟨tempBuf, length, type⟩

def sendStateInquiry (tempBuf statBuf : Mem UInt8) (statBufLen type : Int) : SendArgs :=
  stateFrame tempBuf statBuf statBufLen type

def sendRfMfState (tempBuf statBuf : Mem UInt8) (statBufLen : Int) : SendArgs :=
  stateFrame tempBuf statBuf statBufLen 5

def maxRssiNo : Int := 60000

/-- `buf` is a `struct rssi_priv`, packed: `tv_sec`, `tv_usec` and `rssi_buf_len`
are words of four bytes, `rssi_buf` begins at 12; `shareBuf` is `shareInfo->buf_`. -/
def printRssiStruct (shareBuf buf : Mem UInt8) : SendArgs :=
  let rssiBufLen := int32At buf 8
  let msgLen := wrap32 (4 + 4 + 4 + rssiBufLen)
  let length := wrap32 (msgLen + 4 + 4)
  let shareBuf := shareBuf.write 0 (le32 (msgLen + 4))
  let shareBuf := shareBuf.write 4 (le32 1)
  let shareBuf := shareBuf.write 8 (le32 (int32At buf 0))
  let shareBuf := shareBuf.write 12 (le32 (int32At buf 4))
  let shareBuf := shareBuf.write 16 (le32 rssiBufLen)
  let shareBuf := shareBuf.write 20 (buf.read 12 rssiBufLen.toNat)
  ⟨shareBuf, length, 1⟩

end DevAdapter
