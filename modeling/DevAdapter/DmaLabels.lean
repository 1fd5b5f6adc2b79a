import DevAdapter.Lib.Machine
import DevAdapter.Producers

/-!
# The labels of DMA frames

`csi_state` and `constellation_state` tell which channel the DMA streams, as
long as neither stream is started while the other one is on.
-/

namespace DevAdapter

open OffsetMemory Transition

/-- The calls of the main thread, and those of the driver, which come between them
and not within one. -/
inductive DmaAct
  | startcsi
  | stopcsi
  | startConstellation
  | stopConstellation
  | iq (buf : Mem UInt8) (bufLen : Int)

/-- A frame that was sent: its type, and the last argument of `axidma_chan`. -/
structure DmaFrame where
  chan : Option Nat
  type : Int
  deriving DecidableEq, Repr

structure DmaRun where
  para : DmaPara
  -- trace: what `IQ_register_callback` sent
  sent : List DmaFrame

namespace DmaRun

def init : DmaRun := ⟨.init, []⟩

def setDma (s : DmaRun) (dma : Dma) : DmaRun := { s with para := { s.para with dma := dma } }

/-- The driver calls `IQ_register_callback` only while the DMA is running. -/
def step (s : DmaRun) : DmaAct → Option DmaRun
  | .startcsi => some (s.setDma (gwStartcsi s.para.dma))
  | .stopcsi => some (s.setDma (gwStopcsi s.para.dma))
  | .startConstellation => some (s.setDma (gwStartConstellation s.para.dma))
  | .stopConstellation => some (s.setDma (gwStopConstellation s.para.dma))
  | .iq buf bufLen =>
    if s.para.dma.started then
      let (para, out) := iqRegisterCallback s.para buf bufLen
      some ⟨para, s.sent ++ out.toList.map fun a => ⟨s.para.dma.chan, a.type⟩⟩
    else none

end DmaRun

def dmaMachine : Machine DmaRun DmaAct := ⟨.init, DmaRun.step⟩

namespace DmaRun

/-- A stream is started only while the other one is off, or it is on already. -/
def OneStream (s : DmaRun) : DmaAct → Prop
  | .startcsi => s.para.dma.csiState = true ∨ s.para.dma.constellationState = false
  | .startConstellation => s.para.dma.constellationState = true ∨ s.para.dma.csiState = false
  | _ => True

instance (s : DmaRun) : (act : DmaAct) → Decidable (OneStream s act)
  | .startcsi | .startConstellation => inferInstanceAs (Decidable (_ ∨ _))
  | .stopcsi | .stopConstellation | .iq _ _ => isTrue trivial

/-- The two flags are never both set, and every frame that was sent carries the
type of the channel that was selected. -/
structure Labelled (s : DmaRun) : Prop where
  exclusive : ¬ (s.para.dma.csiState = true ∧ s.para.dma.constellationState = true)
  labels : ∀ f ∈ s.sent, f.chan = some 0x40 ∧ f.type = 2 ∨ f.chan = some 0x80 ∧ f.type = 4

-- ---------------------------------------------------------------------------
-- The flags mirror the hardware
-- ---------------------------------------------------------------------------

inductive Mirrors : Dma → Prop
  | stopped (chan : Option Nat) : Mirrors ⟨false, false, chan, false⟩
  | csi : Mirrors ⟨true, false, some 0x40, true⟩
  | constellation : Mirrors ⟨false, true, some 0x80, true⟩

theorem Mirrors.exclusive (h : Mirrors d) : ¬ (d.csiState = true ∧ d.constellationState = true) := by
  cases h <;> simp

theorem Mirrors.startcsi (h : Mirrors d) (hc : d.csiState = true ∨ d.constellationState = false) :
    Mirrors (gwStartcsi d) := by
  cases h with
  | stopped | csi => exact .csi
  | constellation => simp at hc

theorem Mirrors.startConstellation (h : Mirrors d)
    (hc : d.constellationState = true ∨ d.csiState = false) :
    Mirrors (gwStartConstellation d) := by
  cases h with
  | stopped | constellation => exact .constellation
  | csi => simp at hc

theorem Mirrors.stopcsi (h : Mirrors d) : Mirrors (gwStopcsi d) := by
  cases h with
  | stopped | csi => exact .stopped _
  | constellation => exact .constellation

theorem Mirrors.stopConstellation (h : Mirrors d) : Mirrors (gwStopConstellation d) := by
  cases h with
  | stopped | constellation => exact .stopped _
  | csi => exact .csi

theorem iqRegisterCallback_spec {g : DmaPara} (h : Mirrors g.dma) (hs : g.dma.started = true)
    (buf : Mem UInt8) (bufLen : Int) :
    (iqRegisterCallback g buf bufLen).1.dma = g.dma ∧
      ∀ a ∈ (iqRegisterCallback g buf bufLen).2,
        g.dma.chan = some 0x40 ∧ a.type = 2 ∨ g.dma.chan = some 0x80 ∧ a.type = 4 := by
  obtain ⟨slow, dma⟩ := g
  by_cases hslow : slow < 50
  · simp [iqRegisterCallback, hslow]
  · cases h with
    | stopped => cases hs
    | csi => simp [iqRegisterCallback, hslow]
    | constellation => simp [iqRegisterCallback, hslow]

structure Good (s : DmaRun) : Prop where
  mirrors : Mirrors s.para.dma
  labelled : Labelled s

theorem good_init : Good init where
  mirrors := .stopped none
  labelled := ⟨by simp [init, DmaPara.init, Dma.init], nofun⟩

variable {s s' : DmaRun}

theorem Good.setDma (hi : Good s) (h : Mirrors dma) : Good (s.setDma dma) :=
  ⟨h, h.exclusive, hi.labelled.labels⟩

theorem Good.step (hi : Good s) (hc : OneStream s act) (h : dmaMachine.step s act = some s') :
    Good s' := by
  cases act with
  | startcsi =>
    obtain rfl := Option.some.inj h
    exact hi.setDma (hi.mirrors.startcsi hc)
  | stopcsi =>
    obtain rfl := Option.some.inj h
    exact hi.setDma hi.mirrors.stopcsi
  | startConstellation =>
    obtain rfl := Option.some.inj h
    exact hi.setDma (hi.mirrors.startConstellation hc)
  | stopConstellation =>
    obtain rfl := Option.some.inj h
    exact hi.setDma hi.mirrors.stopConstellation
  | iq buf bufLen =>
    simp only [dmaMachine, DmaRun.step] at h
    split at h
    · rename_i hstarted
      obtain rfl := Option.some.inj h
      obtain ⟨hdma, hlabel⟩ := iqRegisterCallback_spec hi.mirrors hstarted buf bufLen
      have hmirrors : Mirrors (iqRegisterCallback s.para buf bufLen).1.dma := by
        rw [hdma]
        exact hi.mirrors
      refine ⟨hmirrors, hmirrors.exclusive, fun f hf => ?_⟩
      rcases List.mem_append.mp hf with hf | hf
      · exact hi.labelled.labels f hf
      · obtain ⟨a, ha, rfl⟩ := List.mem_map.mp hf
        exact hlabel a (Option.mem_toList.mp ha)
    · cases h

theorem good (h : dmaMachine.ReachesUnder OneStream s) : Good s :=
  h.invariant good_init fun _ _ _ _ hi hc hs => hi.step hc hs

theorem not_labelled_of_second (hc : ¬ OneStream s act) (h : dmaMachine.step s act = some s') :
    ¬ Labelled s' := by
  intro hl
  cases act with
  | startcsi =>
    obtain rfl := Option.some.inj h
    simp only [OneStream, not_or, Bool.not_eq_true, Bool.not_eq_false] at hc
    refine hl.exclusive ?_
    simp [setDma, gwStartcsi, hc]
  | startConstellation =>
    obtain rfl := Option.some.inj h
    simp only [OneStream, not_or, Bool.not_eq_true, Bool.not_eq_false] at hc
    refine hl.exclusive ?_
    simp [setDma, gwStartConstellation, hc]
  | _ => exact hc trivial

/-- In a run, DMA frames carry the labels of their channels in every state if
and only if no stream is ever started beside the other one. -/
theorem labelled_iff (h : dmaMachine.run as = some t) :
    dmaMachine.Throughout Labelled .init as ↔ dmaMachine.Along OneStream .init as :=
  Machine.run_throughout_iff (fun _ hr => (good hr).labelled)
    (fun _ _ _ _ hc hs => not_labelled_of_second hc hs) h

def oneAfterTheOther : List DmaAct :=
  .startcsi :: List.replicate 51 (.iq (fun _ => 0) 16) ++ [.stopcsi, .startConstellation] ++
    List.replicate 51 (.iq (fun _ => 0) 16)

theorem oneAfterTheOther_labelled :
    dmaMachine.Throughout Labelled .init oneAfterTheOther := by
  obtain ⟨s, hs⟩ := Option.isSome_iff_exists.mp
    (show (dmaMachine.run oneAfterTheOther).isSome = true by decide +kernel)
  exact (labelled_iff hs).mpr (by decide +kernel)

theorem startBeside_unlabelled : ¬ ∀ as t, dmaMachine.run as = some t →
    dmaMachine.Throughout Labelled .init as := by
  intro h
  obtain ⟨s, hs⟩ := Option.isSome_iff_exists.mp (show (dmaMachine.run
    (.startcsi :: .startConstellation :: List.replicate 51 (.iq (fun _ => 0) 16))).isSome = true by
      decide +kernel)
  exact (h _ s hs).2.2.here.exclusive ⟨rfl, rfl⟩

end DmaRun

end DevAdapter
