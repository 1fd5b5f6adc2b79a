import DevAdapter.MsgQueue

/-!
# Receiving frames from a client

`receive` reads one chunk behind a headroom of 2000 bytes, walks over the
frames it holds and moves what is left of the last one to the end of the
headroom. Offsets count from `recvbuf`. The `while(1)` loop need not end, so
`receiveLoop` has fuel; one pass through its body is `iterate`.
-/

namespace DevAdapter

open OffsetMemory Word32

def bufferSize : Nat := 2560 * 4

/-- Where `temp_receBuffer` points in `recvbuf`. -/
def headroom : Nat := 2000

def minHeaderLen : Int := 4

/-- Despite its name no byte order is changed. -/
def myNtohl (m : Mem UInt8) (buf : Int) : Int := ofLe32 (m.read buf 4)

/-- The fields of `g_receive_para` that `receive` works on. -/
structure ReceiveBuf where
  gMoreData : Int
  recvbuf : Mem UInt8

/-- The arguments `processMessage` hands to `postMsg`; other types post nothing. -/
def processMessage (m : Mem UInt8) (buf length : Int) :
    Option (MsgType × Option (Mem UInt8 × Int) × Int) :=
  let type := myNtohl m (buf + 4)
  let jsonfile := buf + 4 + 4
  if type = 99 then some (.receivedHeartBeat, none, 0)
  else if type = 4 then some (.startConstellation, none, 0)
  else if type = 5 then some (.stopConstellation, none, 0)
  else if type = 7 then some (.startCsi, none, 0)
  else if type = 8 then some (.stopCsi, none, 0)
  else if type = 1 then some (.inquiryState, some (m, jsonfile), length - 4)
  else if type = 2 then some (.rssiStateChange, some (m, jsonfile), length - 4)
  else if type = 22 then some (.rfMfState, none, 0)
  else none

-- ---------------------------------------------------------------------------
-- The loop of `receive`
-- ---------------------------------------------------------------------------

/-- What one call of `processMessage` is about: its length argument, the type
word and the bytes from `jsonfile` on that the length covers. -/
structure Message where
  length : Int
  type : Int
  json : List UInt8
  deriving DecidableEq, Repr

def messageAt (m : Mem UInt8) (buf length : Int) : Message where
  length := length
  type := myNtohl m (buf + 4)
  json := m.read (buf + 4 + 4) (length - 4).toNat

/-- The locals of `receive` that change from one pass of its loop to the next. -/
structure Loop where
  pStart : Int
  totalByte : Int

inductive Iteration
  | save
  | dispatch (messageLength : Int) (next : Loop)

def iterate (m : Mem UInt8) (l : Loop) : Iteration :=
  if l.totalByte ≤ minHeaderLen then .save
  else
    let messageLength := myNtohl m l.pStart
    if l.totalByte < wrap32 (messageLength + minHeaderLen) then .save
    else .dispatch messageLength
      { pStart := l.pStart + messageLength + minHeaderLen
        totalByte := wrap32 (wrap32 (l.totalByte - messageLength) - minHeaderLen) }

/-- The copy of an incomplete tail, taken as an exact move. -/
def ReceiveBuf.save (b : ReceiveBuf) (l : Loop) : ReceiveBuf where
  gMoreData := l.totalByte
  recvbuf :=
    if 0 < l.totalByte then b.recvbuf.move (headroom - l.totalByte) l.pStart l.totalByte.toNat
    else b.recvbuf

def receiveLoop : Nat → ReceiveBuf → Loop → Option (List Message × ReceiveBuf)
  | 0, _, _ => none
  | fuel + 1, b, l =>
    match iterate b.recvbuf l with
    | .save => some ([], b.save l)
    | .dispatch messageLength next =>
      let call := messageAt b.recvbuf l.pStart messageLength
      if next.totalByte = 0 then some ([call], { b with gMoreData := 0 })
      else (receiveLoop fuel b next).map fun (calls, b') => (call :: calls, b')

def ReceiveBuf.recv (b : ReceiveBuf) (chunk : List UInt8) : ReceiveBuf :=
  { b with recvbuf := b.recvbuf.write headroom chunk }

/-- The loop's locals when it is entered, `chunk` being what `recv` returned. -/
def ReceiveBuf.enter (b : ReceiveBuf) (chunk : List UInt8) : Loop where
  pStart := headroom - b.gMoreData
  totalByte := wrap32 (chunk.length + b.gMoreData)

/-- One call of `receive`; an empty chunk stands for every result `n <= 0`. -/
def receive (fuel : Nat) (b : ReceiveBuf) (chunk : List UInt8) : Option (List Message × ReceiveBuf) :=
  if chunk = [] then some ([], b) else receiveLoop fuel (b.recv chunk) (b.enter chunk)

/-- The calls `receive_thread` makes for successive chunks. -/
def receiveAll (fuel : Nat) : ReceiveBuf → List (List UInt8) → Option (List Message × ReceiveBuf)
  | b, [] => some ([], b)
  | b, c :: cs =>
    (receive fuel b c).bind fun (calls, b') =>
      (receiveAll fuel b' cs).map fun (calls', b'') => (calls ++ calls', b'')

end DevAdapter
