import DevAdapter.Lib.Machine
import DevAdapter.Server.LengthRule

/-!
# Genuine frames

A client may send any bytes. `receive` compares the length word with the bytes
that wait and with nothing else, in `int` arithmetic, so a word below 4 is taken
as whole although the type word is not in the frame, and one next to
`2 ^ 31 - 1`, for which the comparison wraps, although the frame is not there.
With every other length the calls of `processMessage` are for whole frames.
-/

namespace DevAdapter

open OffsetMemory Word32 Transition

structure Call where
  message : Message
  -- the 4 bytes of the length word and the bytes it counts, from `pStart` on
  window : List UInt8
  -- trace: the bytes that were received and not consumed
  pending : List UInt8

structure Receiver where
  buf : ReceiveBuf
  -- the locals of `receive` while its loop runs
  loop : Option Loop
  -- trace: the bytes that are received and not consumed
  pending : List UInt8
  -- trace: the calls of `processMessage`
  calls : List Call

inductive ReceiveAct
  | recv (chunk : List UInt8)
  | pass

namespace Receiver

/-- The locals after a call of `processMessage`, unless the loop ends there. -/
def next (l : Loop) : Option Loop := if l.totalByte = 0 then none else some l

def step (s : Receiver) : ReceiveAct → Option Receiver
  | .recv chunk =>
    if s.loop.isNone ∧ chunk ≠ [] ∧ chunk.length ≤ bufferSize then
      some { s with
        buf := s.buf.recv chunk
        loop := some (s.buf.enter chunk)
        pending := s.pending ++ chunk }
    else none
  | .pass =>
    match s.loop with
    | none => none
    | some l =>
      match iterate s.buf.recvbuf l with
      | .save => some { s with buf := s.buf.save l, loop := none }
      | .dispatch messageLength l' =>
        let size := (messageLength + minHeaderLen).toNat
        some {
          buf := if l'.totalByte = 0 then { s.buf with gMoreData := 0 } else s.buf
          loop := next l'
          pending := s.pending.drop size
          calls := s.calls ++ [⟨messageAt s.buf.recvbuf l.pStart messageLength,
            s.buf.recvbuf.read l.pStart size, s.pending⟩] }

end Receiver

def receiver (recvbuf : Mem UInt8) : Machine Receiver ReceiveAct :=
  ⟨⟨⟨0, recvbuf⟩, none, [], []⟩, Receiver.step⟩

namespace Receiver

/-- The passes of the loop of one call of `receive`. The induction is on the fuel. -/
theorem receiveLoop_run {fuel : Nat} {b b' : ReceiveBuf} {l : Loop} {messages : List Message}
    (h : receiveLoop fuel b l = some (messages, b')) (recvbuf : Mem UInt8) {s : Receiver}
    (hb : s.buf = b) (hl : s.loop = some l) :
    ∃ n s', (receiver recvbuf).runFrom s (List.replicate n .pass) = some s' ∧ s'.buf = b' ∧
      s'.loop = none ∧ s'.calls.map Call.message = s.calls.map Call.message ++ messages := by
  induction fuel generalizing b l messages s with
  | zero => cases h
  | succ fuel ih =>
    subst hb
    rw [receiveLoop] at h
    cases hpass : iterate s.buf.recvbuf l with
    | save =>
      simp only [hpass] at h
      cases h
      exact ⟨1, _, by simp [Machine.runFrom, receiver, step, hl, hpass]; rfl, rfl, rfl, by simp⟩
    | dispatch messageLength l' =>
      simp only [hpass] at h
      split at h
      · rename_i hzero
        cases h
        refine ⟨1, _, by simp [Machine.runFrom, receiver, step, hl, hpass]; rfl, ?_, ?_, by simp⟩
        · exact if_pos hzero
        · exact if_pos hzero
      · rename_i hmore
        obtain ⟨⟨messages, b⟩, hloop, heq⟩ := Option.map_eq_some_iff.mp h
        cases heq
        obtain ⟨s₁, hstep, hbuf, hnext, hcalls⟩ : ∃ s₁, (receiver recvbuf).step s .pass = some s₁ ∧
            s₁.buf = s.buf ∧ s₁.loop = some l' ∧ s₁.calls.map Call.message =
              s.calls.map Call.message ++ [messageAt s.buf.recvbuf l.pStart messageLength] := by
          refine ⟨_, by simp only [receiver, step, hl, hpass]; rfl, if_neg hmore, if_neg hmore, ?_⟩
          rw [List.map_append]
          rfl
        obtain ⟨n, s', hrun, hbuf', hloop', hcalls'⟩ := ih hloop hbuf hnext
        refine ⟨n + 1, s', ?_, hbuf', hloop', by rw [hcalls', hcalls]; simp⟩
        rw [List.replicate_succ, Machine.runFrom, hstep]
        exact hrun

theorem receive_run {fuel : Nat} {b' : ReceiveBuf} {chunk : List UInt8} {messages : List Message}
    {s : Receiver} (h : receive fuel s.buf chunk = some (messages, b')) (recvbuf : Mem UInt8)
    (hloop : s.loop = none) (hne : chunk ≠ []) (hle : chunk.length ≤ bufferSize) :
    ∃ n s', (receiver recvbuf).runFrom s (.recv chunk :: List.replicate n .pass) = some s' ∧
      s'.buf = b' ∧ s'.loop = none ∧
      s'.calls.map Call.message = s.calls.map Call.message ++ messages := by
  rw [receive, if_neg hne] at h
  obtain ⟨n, s', hrun, hs'⟩ := receiveLoop_run h recvbuf (s := { s with
    buf := s.buf.recv chunk, loop := some (s.buf.enter chunk), pending := s.pending ++ chunk }) rfl rfl
  refine ⟨n, s', ?_, hs'⟩
  simp only [Machine.runFrom, receiver, step, hloop, hne, hle, Option.isNone_none, ne_eq,
    not_false_eq_true, and_self, if_true, Option.bind_some]
  exact hrun

end Receiver

/-- The call is for a whole frame of what waits, and reads the bytes of that frame. -/
structure Call.Genuine (c : Call) : Prop where
  four_le : 4 ≤ c.message.length
  whole : c.window <+: c.pending ∧ c.window.length = (c.message.length + minHeaderLen).toNat
  frame : ∃ f : Frame, c.window = f.encode ∧ c.message = f.message

namespace Receiver

def AllGenuine (s : Receiver) : Prop := ∀ c ∈ s.calls, c.Genuine

/-- Where the length rule takes a message as whole, its length word is one that
a frame may have, and that does not wrap with the header added. -/
def Lengths (s : Receiver) : ReceiveAct → Prop
  | .recv _ => True
  | .pass => ∀ messageLength ∈ nextLength s.pending, 4 ≤ messageLength ∧ messageLength < 2 ^ 31 - 4

/-- What waits can be counted by an `int`. -/
def Countable (s : Receiver) : ReceiveAct → Prop
  | .recv chunk => s.pending.length + chunk.length < 2 ^ 31
  | .pass => True

instance (s : Receiver) : (act : ReceiveAct) → Decidable (Lengths s act)
  | .recv _ => isTrue trivial
  | .pass =>
    match h : nextLength s.pending with
    | none => isTrue fun _ hm => by rw [h] at hm; cases hm
    | some messageLength =>
      decidable_of_iff (4 ≤ messageLength ∧ messageLength < 2 ^ 31 - 4) (by simp [Lengths, h])

instance (s : Receiver) : (act : ReceiveAct) → Decidable (Countable s act)
  | .recv _ => inferInstanceAs (Decidable (_ < _))
  | .pass => isTrue trivial

-- ---------------------------------------------------------------------------
-- Where what waits lies
-- ---------------------------------------------------------------------------

/-- The loop is about to look at the bytes that wait. -/
def Window (m : Mem UInt8) (pending : List UInt8) (l : Loop) : Prop :=
  l.totalByte = pending.length ∧ m.read l.pStart pending.length = pending

structure Good (s : Receiver) : Prop where
  small : s.pending.length < 2 ^ 31
  held : s.loop = none → s.buf.Holds s.pending
  window : ∀ l, s.loop = some l → Window s.buf.recvbuf s.pending l
  genuine : AllGenuine s

theorem good_init (recvbuf : Mem UInt8) : Good (receiver recvbuf).init where
  small := by simp [receiver]
  held _ := ReceiveBuf.holds_nil rfl
  window _ := nofun
  genuine _ := nofun

variable {s s' : Receiver} {recvbuf : Mem UInt8}

theorem Good.recv (hi : Good s) (hc : Countable s (.recv chunk))
    (h : step s (.recv chunk) = some s') : Good s' := by
  simp only [step] at h
  split at h
  · rename_i hen
    obtain rfl := Option.some.inj h
    obtain ⟨hmore, -⟩ := hi.held (Option.isNone_iff_eq_none.mp hen.1)
    have hsmall : s.pending.length + chunk.length < 2 ^ 31 := hc
    refine ⟨by simpa using hsmall, nofun, ?_, hi.genuine⟩
    intro l hl
    obtain rfl := Option.some.inj hl
    have hread := ReceiveBuf.read_recv (c := chunk) (hi.held (Option.isNone_iff_eq_none.mp hen.1))
    refine ⟨?_, ?_⟩
    · rw [ReceiveBuf.enter, hmore, wrap32_eq (by omega) (by omega), List.length_append,
        Int.natCast_add, Int.add_comm]
    · rw [ReceiveBuf.enter, hmore, List.length_append]
      exact hread
  · cases h

/-- What a pass of the loop finds: the length rule on the bytes that wait. -/
theorem Window.iterate_eq {m : Mem UInt8} {pending : List UInt8} {l : Loop} (h : Window m pending l) :
    iterate m l =
      match nextLength pending with
      | none => .save
      | some messageLength => .dispatch messageLength
          { pStart := l.pStart + messageLength + minHeaderLen
            totalByte := wrap32 (wrap32 (pending.length - messageLength) - minHeaderLen) } := by
  obtain ⟨p, n⟩ := l
  obtain ⟨rfl, hread⟩ := h
  have heq := DevAdapter.iterate_eq m p pending.length
  rwa [hread] at heq

theorem nextLength_eq_some {bytes : List UInt8} {messageLength : Int}
    (h : nextLength bytes = some messageLength) :
    4 < bytes.length ∧ ofLe32 (bytes.take 4) = messageLength ∧
      wrap32 (messageLength + 4) ≤ bytes.length := by
  unfold nextLength at h
  split at h
  · cases h
  · rename_i hhead
    dsimp only at h
    split at h
    · cases h
    · rename_i hfit
      obtain rfl := Option.some.inj h
      unfold minHeaderLen at hhead hfit
      exact ⟨by omega, rfl, Int.not_lt.mp hfit⟩

theorem exists_frame {pending : List UInt8} {messageLength : Int}
    (h : nextLength pending = some messageLength) (h4 : 4 ≤ messageLength)
    (hlt : messageLength < 2 ^ 31 - 4) :
    ∃ f : Frame, ∃ rest, pending = f.encode ++ rest ∧ messageLength = f.body.length := by
  obtain ⟨hhead, hword, hfit⟩ := nextLength_eq_some h
  rw [wrap32_eq (by omega) (by omega)] at hfit
  have hsplit : pending = pending.take 4 ++ ((pending.drop 4).take messageLength.toNat ++
      (pending.drop 4).drop messageLength.toNat) := by
    rw [List.take_append_drop, List.take_append_drop]
  have hlen : ((pending.drop 4).take messageLength.toNat).length = messageLength.toNat := by
    rw [List.length_take, List.length_drop]
    omega
  refine ⟨⟨(pending.drop 4).take messageLength.toNat, by omega, by omega⟩,
    (pending.drop 4).drop messageLength.toNat, ?_, by simp only; omega⟩
  have hbytes : le32 (((pending.drop 4).take messageLength.toNat).length : Nat) =
      pending.take 4 := by
    rw [hlen, Int.toNat_of_nonneg (by omega), ← hword,
      le32_ofLe32 (by rw [List.length_take]; omega)]
  rw [Frame.encode, hbytes, List.append_assoc]
  exact hsplit

-- ---------------------------------------------------------------------------
-- One pass of the loop
-- ---------------------------------------------------------------------------

theorem Window.save {b : ReceiveBuf} {pending : List UInt8} {l : Loop}
    (h : Window b.recvbuf pending l) : (b.save l).Holds pending := by
  obtain ⟨p, n⟩ := l
  obtain ⟨rfl, hread⟩ := h
  cases pending with
  | nil => exact ⟨rfl, rfl⟩
  | cons x xs =>
    have hholds := ReceiveBuf.save_holds (b := b) (p := p) (n := (x :: xs).length) (by simp)
    rwa [hread] at hholds

theorem Window.frame {m : Mem UInt8} {f : Frame} {rest : List UInt8} {l : Loop}
    (h : Window m (f.encode ++ rest) l) :
    m.read l.pStart f.encode.length = f.encode ∧
      m.read (l.pStart + f.encode.length) rest.length = rest := by
  obtain ⟨-, hread⟩ := h
  rw [List.length_append, read_add] at hread
  exact List.append_inj hread (length_read _ _ _)

theorem Window.dispatch {m : Mem UInt8} {f : Frame} {rest : List UInt8} {l : Loop}
    (h : Window m (f.encode ++ rest) l) (hsmall : (f.encode ++ rest).length < 2 ^ 31) :
    iterate m l = .dispatch f.body.length ⟨l.pStart + f.encode.length, rest.length⟩ := by
  have hword : myNtohl m l.pStart = f.body.length := by
    have hlt := f.lt
    rw [myNtohl, ← take_read m l.pStart (n := f.encode.length) (by simp), h.frame.1, Frame.encode,
      List.take_left' (length_le32 _), ofLe32_le32_of_range (by omega) (by omega)]
  obtain ⟨p, n⟩ := l
  obtain ⟨rfl, -⟩ := h
  have hwhole := iterate_whole hsmall hword (by simp)
  rwa [List.length_append, Nat.add_sub_cancel_left, ← List.length_append] at hwhole

theorem Good.dispatched {f : Frame} {rest : List UInt8} {l : Loop} {c : Call} (hi : Good s)
    (hl : s.loop = some l) (hpending : s.pending = f.encode ++ rest) (hc : c.Genuine) :
    Good {
      buf := if (rest.length : Int) = 0 then { s.buf with gMoreData := 0 } else s.buf
      loop := next ⟨l.pStart + f.encode.length, rest.length⟩
      pending := rest
      calls := s.calls ++ [c] } := by
  have hwindow := hi.window l hl
  have hsmall := hi.small
  rw [hpending] at hwindow hsmall
  rw [List.length_append] at hsmall
  refine ⟨by simp only; omega, fun hnone => ?_, fun l' hl' => ?_, fun c' hcall => ?_⟩
  · -- the loop ends when nothing is left
    have hnil : rest = [] := by simpa [next] using hnone
    subst hnil
    exact ReceiveBuf.holds_nil rfl
  · simp only [next] at hl'
    split at hl'
    · cases hl'
    · rename_i hne
      obtain rfl := Option.some.inj hl'
      simp only [hne, if_false]
      exact ⟨rfl, hwindow.frame.2⟩
  · rcases List.mem_append.mp hcall with hold | hnew
    · exact hi.genuine c' hold
    · rwa [List.mem_singleton.mp hnew]

theorem Good.pass (hi : Good s) (hc : Lengths s .pass) (h : step s .pass = some s') : Good s' := by
  simp only [step] at h
  split at h
  · cases h
  · rename_i l hl
    have hwindow := hi.window l hl
    cases hnext : nextLength s.pending with
    | none =>
      simp only [hwindow.iterate_eq, hnext] at h
      obtain rfl := Option.some.inj h
      exact ⟨hi.small, fun _ => hwindow.save, nofun, hi.genuine⟩
    | some messageLength =>
      obtain ⟨h4, hlt⟩ := hc messageLength hnext
      obtain ⟨f, rest, hpending, rfl⟩ := exists_frame hnext h4 hlt
      have hsmall := hi.small
      have hdrop : s.pending.drop f.encode.length = rest := by rw [hpending, List.drop_left]
      have hsize : ((f.body.length : Int) + minHeaderLen).toNat = f.encode.length := by
        rw [f.length_encode]
        rfl
      rw [hpending] at hwindow hsmall
      have hframe := hwindow.frame.1
      simp only [hwindow.dispatch hsmall, hsize, hdrop] at h
      obtain rfl := Option.some.inj h
      refine hi.dispatched hl hpending ⟨h4, ⟨?_, ?_⟩, f, hframe, messageAt_frame hframe⟩
      · rw [hframe, hpending]
        exact List.prefix_append _ _
      · rw [length_read]
        exact hsize.symm

theorem Good.step (hi : Good s) (hc : Lengths s act) (hcount : Countable s act)
    (h : (receiver recvbuf).step s act = some s') : Good s' := by
  cases act with
  | recv chunk => exact hi.recv hcount h
  | pass => exact hi.pass hc h

theorem good (h : (receiver recvbuf).ReachesUnder (Machine.Both Lengths Countable) s) : Good s :=
  h.invariant (good_init recvbuf) fun _ _ _ _ hi hc hs => hi.step hc.1 hc.2 hs

-- ---------------------------------------------------------------------------
-- Runs
-- ---------------------------------------------------------------------------

theorem not_genuine_of_length (hi : Good s) (hc : ¬ Lengths s act)
    (h : (receiver recvbuf).step s act = some s') : ¬ AllGenuine s' := by
  cases act with
  | recv chunk => exact absurd trivial hc
  | pass =>
    intro hgenuine
    simp only [Lengths, not_forall] at hc
    obtain ⟨messageLength, hnext, hbad⟩ := hc
    have h : Receiver.step s .pass = some s' := h
    simp only [Receiver.step] at h
    split at h
    · cases h
    · rename_i l hl
      have hnext : nextLength s.pending = some messageLength := hnext
      simp only [(hi.window l hl).iterate_eq, hnext] at h
      obtain rfl := Option.some.inj h
      have hcall := hgenuine _ (List.mem_append_right _ (List.mem_singleton_self _))
      refine hbad ⟨hcall.four_le, ?_⟩
      -- all the bytes it counts are there, and can be counted by an `int`
      have hfits := hcall.whole.1.length_le
      have hsmall := hi.small
      rw [hcall.whole.2] at hfits
      have hlength : (messageLength + 4).toNat ≤ s.pending.length := hfits
      omega

/-- In a run in which what waits can be counted, every call of `processMessage`
is for a whole frame that was received if and only if every length word that
the comparisons let through is that of a frame and does not wrap. -/
theorem genuine_iff (h : (receiver recvbuf).run as = some t)
    (hcount : (receiver recvbuf).Along Countable (receiver recvbuf).init as) :
    (receiver recvbuf).Throughout AllGenuine (receiver recvbuf).init as ↔
      (receiver recvbuf).Along Lengths (receiver recvbuf).init as :=
  Machine.throughout_iff_along (fun _ hr => (good hr).genuine)
    (fun _ _ _ hr _ hc hs => not_genuine_of_length (good hr) hc hs) .init hcount h

def beatsInPieces : List ReceiveAct :=
  [.recv [4, 0, 0, 0, 99, 0, 0, 0, 4, 0], .pass, .pass, .recv [0, 0, 99, 0, 0, 0], .pass]

theorem beatsInPieces_genuine : (receiver fun _ => 7).Throughout AllGenuine
    (receiver fun _ => 7).init beatsInPieces := by
  obtain ⟨s, hs⟩ := Option.isSome_iff_exists.mp
    (show ((receiver fun _ => 7).run beatsInPieces).isSome = true by decide +kernel)
  exact (genuine_iff hs (by decide +kernel)).mpr (by decide +kernel)

/-- A frame of no bytes, and one byte behind it. -/
theorem emptyFrame_dispatched : ¬ ∀ recvbuf as t, (receiver recvbuf).run as = some t →
    (receiver recvbuf).Throughout AllGenuine (receiver recvbuf).init as := by
  intro h
  obtain ⟨s, hs⟩ := Option.isSome_iff_exists.mp
    (show ((receiver fun _ => 7).run [.recv [0, 0, 0, 0, 99], .pass]).isSome = true by
      decide +kernel)
  have hlast := (h _ _ s hs).2.2 _ (List.mem_singleton_self _)
  exact absurd hlast.four_le (by decide +kernel)

end Receiver

end DevAdapter
