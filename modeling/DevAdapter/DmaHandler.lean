/-!
# The DMA handler

`csi_state` and `constellation_state` with what the calls of the axidma
library did last. `p_axidma` is not `NULL` here: `main` returns when
`axidma_open` fails, and nothing calls `gw_closedma`.
-/

namespace DevAdapter

structure Dma where
  csiState : Bool
  constellationState : Bool
  -- the channel `axidma_chan` was last called with
  chan : Option Nat
  -- an `axidma_start` came after the last `axidma_stop`
  started : Bool
  deriving DecidableEq, Repr

def Dma.init : Dma := ⟨false, false, none, false⟩

def gwStartcsi (d : Dma) : Dma :=
  if d.csiState then d else { d with chan := some 0x40, started := true, csiState := true }

def gwStopcsi (d : Dma) : Dma :=
  if d.csiState then { d with started := false, csiState := false, constellationState := false }
  else d

def gwStartConstellation (d : Dma) : Dma :=
  if d.constellationState then d
  else { d with chan := some 0x80, started := true, constellationState := true }

def gwStopConstellation (d : Dma) : Dma :=
  if d.constellationState then
    { d with started := false, constellationState := false, csiState := false }
  else d

end DevAdapter
