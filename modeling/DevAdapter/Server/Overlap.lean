import DevAdapter.Server.Genuine

/-!
# The copies of incomplete tails

`receive` moves the tail of a frame that is not whole to the end of the headroom
with `memcpy`, which takes ranges that are apart or the same. They are, unless a
call goes on with a kept tail and its chunk does not complete the frame.
-/

namespace DevAdapter

open OffsetMemory Word32 Framing Transition

/-- A pass that ends the loop with a copy, if anything is left. -/
def Iteration.saves : Iteration → Bool
  | .save => true
  | .dispatch _ _ => false

namespace Receiver

def received : List ReceiveAct → List UInt8
  | [] => []
  | .recv chunk :: as => chunk ++ received as
  | .pass :: as => received as

/-- The pointers of a pass stay in `recvbuf`: `pStart`, the end of what waits, and
the place of the bytes to carry over. -/
def Inside (s : Receiver) : Prop :=
  ∀ l ∈ s.loop, 0 ≤ l.pStart ∧ l.pStart ≤ bufferSize ∧ l.pStart + l.totalByte ≤ bufferSize ∧
    ((iterate s.buf.recvbuf l).saves = true → 0 ≤ headroom - l.totalByte)

/-- The ranges of `n` bytes at two offsets, as `memcpy` wants them. -/
def Apart (src dst n : Int) : Prop := src + n ≤ dst ∨ dst + n ≤ src ∨ src = dst

def CopyApart (s : Receiver) : Prop :=
  ∀ l ∈ s.loop, (iterate s.buf.recvbuf l).saves = true → 0 < l.totalByte →
    Apart l.pStart (headroom - l.totalByte) l.totalByte

def Completes (s : Receiver) : ReceiveAct → Prop
  | .recv chunk => s.pending = [] ∨ (nextLength (s.pending ++ chunk)).isSome = true
  | .pass => True

/-- A step leaves the pointers inside, and a chunk continues a stream of frames. -/
def Proper (s : Receiver) (act : ReceiveAct) : Prop :=
  (∀ s', s.step act = some s' → Inside s') ∧
    ∀ chunk, act = .recv chunk → ∃ gs, s.pending ++ chunk <+: stream Frame.encode gs

instance (src dst n : Int) : Decidable (Apart src dst n) := inferInstanceAs (Decidable (_ ∨ _))

instance (s : Receiver) : Decidable (Inside s) := inferInstanceAs (Decidable (∀ l ∈ s.loop, _))

instance (s : Receiver) : Decidable (CopyApart s) := inferInstanceAs (Decidable (∀ l ∈ s.loop, _))

instance (s : Receiver) : (act : ReceiveAct) → Decidable (Completes s act)
  | .recv _ => inferInstanceAs (Decidable (_ ∨ _))
  | .pass => isTrue trivial

variable {s s' : Receiver} {recvbuf : Mem UInt8} {act : ReceiveAct}

-- ---------------------------------------------------------------------------
-- What waits begins with a frame
-- ---------------------------------------------------------------------------

theorem Window.saves_iff {m : Mem UInt8} {pending : List UInt8} {l : Loop} (h : Window m pending l) :
    (iterate m l).saves = true ↔ nextLength pending = none := by
  rw [h.iterate_eq]
  cases nextLength pending with
  | none => simp [Iteration.saves]
  | some messageLength => simp [Iteration.saves]

theorem exists_next {pending : List UInt8} {gs : List Frame} (h : pending <+: stream Frame.encode gs)
    (hlong : 4 ≤ pending.length) :
    ∃ g gs', gs = g :: gs' ∧ ofLe32 (pending.take 4) = g.body.length := by
  cases gs with
  | nil =>
    rw [stream_nil, List.prefix_nil] at h
    rw [h] at hlong
    cases hlong
  | cons g gs =>
    refine ⟨g, gs, rfl, ?_⟩
    have hlt := g.lt
    have hword : pending.take 4 = le32 g.body.length := by
      rw [List.prefix_iff_eq_take.mp h, List.take_take, Nat.min_eq_left hlong, stream_cons,
        Frame.encode, List.append_assoc, List.take_left' (length_le32 _)]
    rw [hword, ofLe32_le32_of_range (by omega) (by omega)]

theorem four_le_of_nextLength {pending : List UInt8} {gs : List Frame}
    (h : pending <+: stream Frame.encode gs) (hnext : nextLength pending = some messageLength) :
    4 ≤ messageLength := by
  obtain ⟨hlong, hword, -⟩ := nextLength_eq_some hnext
  obtain ⟨g, -, -, hg⟩ := exists_next h (by omega)
  have h4 := g.four_le
  omega

theorem nextLength_eq_none {bytes : List UInt8} (h : nextLength bytes = none) :
    bytes.length ≤ 4 ∨ bytes.length < wrap32 (ofLe32 (bytes.take 4) + 4) := by
  by_cases hhead : (bytes.length : Int) ≤ minHeaderLen
  · exact .inl (Int.ofNat_le.mp hhead)
  · by_cases hfit : (bytes.length : Int) < wrap32 (ofLe32 (bytes.take 4) + minHeaderLen)
    · exact .inr hfit
    · simp [nextLength, hhead, hfit] at h

-- ---------------------------------------------------------------------------
-- Streams of frames inside the buffer
-- ---------------------------------------------------------------------------

/-- What waits begins a stream of frames and lies inside `recvbuf`, and between
two calls no whole frame waits. -/
structure Aligned (s : Receiver) : Prop where
  good : Good s
  inside : Inside s
  frames : ∃ gs, s.pending <+: stream Frame.encode gs
  rests : s.loop = none → nextLength s.pending = none

theorem aligned_init (recvbuf : Mem UInt8) : Aligned (receiver recvbuf).init where
  good := good_init recvbuf
  inside _ := nofun
  frames := ⟨[], List.nil_prefix⟩
  rests _ := rfl

theorem recv_step (h : s.step (.recv chunk) = some s') :
    s.loop = none ∧ chunk ≠ [] ∧ chunk.length ≤ bufferSize ∧ s' = { s with
      buf := s.buf.recv chunk
      loop := some (s.buf.enter chunk)
      pending := s.pending ++ chunk } := by
  obtain ⟨⟨hloop, hne, hle⟩, heq⟩ := Option.ite_none_right_eq_some.mp h
  exact ⟨Option.isNone_iff_eq_none.mp hloop, hne, hle, (Option.some.inj heq).symm⟩

theorem Aligned.enter_pStart (hi : Aligned s) (hloop : s.loop = none) (chunk : List UInt8) :
    (s.buf.enter chunk).pStart = headroom - s.pending.length := by
  rw [ReceiveBuf.enter, (hi.good.held hloop).1]

theorem Aligned.countable (hi : Aligned s) (hc : Proper s (.recv chunk))
    (h : s.step (.recv chunk) = some s') : Countable s (.recv chunk) := by
  have hinside := hc.1 s' h
  obtain ⟨hloop, -, hle, rfl⟩ := recv_step h
  have hstart := (hinside _ rfl).1
  rw [hi.enter_pStart hloop chunk] at hstart
  simp only [Countable, headroom, bufferSize] at hstart hle ⊢
  omega

theorem pass_loop (h : s.step .pass = some s') : ∃ l, s.loop = some l := by
  cases hl : s.loop with
  | none => simp [step, hl] at h
  | some l => exact ⟨l, rfl⟩

theorem Good.pass_save (hi : Good s) (hl : s.loop = some l) (hnext : nextLength s.pending = none)
    (h : s.step .pass = some s') : s'.loop = none ∧ s'.pending = s.pending := by
  simp only [Receiver.step, hl, (hi.window l hl).iterate_eq, hnext] at h
  obtain rfl := Option.some.inj h
  exact ⟨rfl, rfl⟩

theorem Good.pass_dispatch (hi : Good s) (hl : s.loop = some l)
    (hnext : nextLength s.pending = some messageLength) (h : s.step .pass = some s') :
    s'.loop = next ⟨l.pStart + messageLength + minHeaderLen,
        wrap32 (wrap32 (s.pending.length - messageLength) - minHeaderLen)⟩ ∧
      s'.pending = s.pending.drop (messageLength + minHeaderLen).toNat := by
  simp only [Receiver.step, hl, (hi.window l hl).iterate_eq, hnext] at h
  obtain rfl := Option.some.inj h
  exact ⟨rfl, rfl⟩

theorem wrap32_left {n messageLength : Int} (h : 4 < n) (hn : n < 2 ^ 31)
    (h4 : 4 ≤ messageLength) (hlt : messageLength < 2 ^ 31) :
    wrap32 (wrap32 (n - messageLength) - minHeaderLen) = n - messageLength - 4 := by
  rw [wrap32_eq (x := n - messageLength) (by omega) (by omega)]
  exact wrap32_eq (by simp only [minHeaderLen]; omega) (by simp only [minHeaderLen]; omega)

theorem ofLe32_lt (bytes : List UInt8) : ofLe32 bytes < 2 ^ 31 := (wrap32_range _).2

/-- A length that wraps would take `pStart` out of the buffer. -/
theorem Aligned.lengths (hi : Aligned s) (hc : Proper s .pass) (h : s.step .pass = some s') :
    Lengths s .pass := by
  intro messageLength hnext
  obtain ⟨gs, hgs⟩ := hi.frames
  have h4 := four_le_of_nextLength hgs hnext
  obtain ⟨hlong, hword, -⟩ := nextLength_eq_some hnext
  have hlt := ofLe32_lt (s.pending.take 4)
  rw [hword] at hlt
  refine ⟨h4, Int.not_le.mp fun hwraps => ?_⟩
  obtain ⟨l, hl⟩ := pass_loop h
  obtain ⟨hlow, -, hend, -⟩ := hi.inside l hl
  rw [(hi.good.window l hl).1] at hend
  simp only [bufferSize] at hend
  obtain ⟨hloop, -⟩ := hi.good.pass_dispatch hl hnext h
  rw [wrap32_left (by omega) (by omega) h4 hlt, next, if_neg (by simp only; omega)] at hloop
  have hstart := (hc.1 s' h _ hloop).2.1
  simp only [bufferSize, minHeaderLen] at hstart
  omega

theorem Aligned.pass_cases (hi : Aligned s) (hl : s.loop = some l) (hc : Proper s .pass)
    (h : s.step .pass = some s') :
    nextLength s.pending = none ∧ s'.loop = none ∧ s'.pending = s.pending ∨
      ∃ (f : Frame) (rest : List UInt8), s.pending = f.encode ++ rest ∧
        nextLength s.pending = some (f.body.length : Int) ∧ s'.pending = rest ∧
        s'.loop = next ⟨l.pStart + f.body.length + 4, rest.length⟩ := by
  cases hnext : nextLength s.pending with
  | none => exact .inl ⟨rfl, hi.good.pass_save hl hnext h⟩
  | some messageLength =>
    obtain ⟨h4, hlt⟩ := hi.lengths hc h messageLength hnext
    obtain ⟨f, rest, hpending, rfl⟩ := exists_frame hnext h4 hlt
    obtain ⟨hloop, hdrop⟩ := hi.good.pass_dispatch hl hnext h
    have hsmall := hi.good.small
    have hlength := f.length_encode
    rw [hpending, List.length_append] at hsmall
    refine .inr ⟨f, rest, hpending, rfl, ?_, ?_⟩
    · rw [hdrop, hpending, show ((f.body.length : Int) + minHeaderLen).toNat = f.encode.length by
        rw [hlength]; rfl, List.drop_left]
    · have hleft : (s.pending.length : Int) - f.body.length - 4 = rest.length := by
        rw [hpending, List.length_append]
        omega
      rw [hloop, wrap32_left (by rw [hpending, List.length_append]; omega)
        (by rw [hpending, List.length_append]; omega) h4 (by omega), hleft]
      rfl

theorem rest_prefix {f : Frame} {rest : List UInt8} {gs : List Frame}
    (h : f.encode ++ rest <+: stream Frame.encode gs) : ∃ gs', rest <+: stream Frame.encode gs' := by
  have hfour := f.four_le
  obtain ⟨g, gs', rfl, hword⟩ := exists_next h (by rw [List.length_append, f.length_encode]; omega)
  have hlt := f.lt
  have hown : ofLe32 ((f.encode ++ rest).take 4) = f.body.length := by
    rw [Frame.encode, List.append_assoc, List.take_left' (length_le32 _),
      ofLe32_le32_of_range (by omega) (by omega)]
  have hlength : f.encode.length = g.encode.length := by
    rw [f.length_encode, g.length_encode]
    omega
  obtain ⟨after, hafter⟩ := h
  rw [stream_cons, List.append_assoc] at hafter
  exact ⟨gs', after, (List.append_inj hafter hlength).2⟩

theorem Aligned.step (hi : Aligned s) (hc : Proper s act) (h : s.step act = some s') :
    Aligned s' := by
  have hinside := hc.1 s' h
  cases act with
  | recv chunk =>
    have hgood := hi.good.recv (hi.countable hc h) h
    obtain ⟨-, -, -, rfl⟩ := recv_step h
    exact ⟨hgood, hinside, hc.2 chunk rfl, nofun⟩
  | pass =>
    have hgood := hi.good.pass (hi.lengths hc h) h
    obtain ⟨l, hl⟩ := pass_loop h
    obtain ⟨gs, hgs⟩ := hi.frames
    rcases hi.pass_cases hl hc h with ⟨hnext, -, hpending⟩ | ⟨f, rest, hpending, -, hrest, hloop⟩
    · refine ⟨hgood, hinside, ⟨gs, by rwa [hpending]⟩, fun _ => by rwa [hpending]⟩
    · rw [hpending] at hgs
      refine ⟨hgood, hinside, by rw [hrest]; exact rest_prefix hgs, fun hnone => ?_⟩
      -- the loop ends when nothing is left
      rw [hloop, next] at hnone
      split at hnone
      · have hnil : rest = [] := List.length_eq_zero_iff.mp (Int.ofNat_eq_zero.mp ‹_›)
        rw [hrest, hnil]
        rfl
      · cases hnone

-- ---------------------------------------------------------------------------
-- Where the passes of a call begin
-- ---------------------------------------------------------------------------

/-- A pass begins behind the headroom, or has a frame before it that ends there. -/
def Ahead (s : Receiver) : Prop :=
  ∀ l ∈ s.loop, headroom ≤ l.pStart ∨
    ∃ messageLength, nextLength s.pending = some messageLength ∧
      headroom ≤ l.pStart + messageLength + 4

theorem tail_le_of_completed {kept chunk : List UInt8} {gs : List Frame}
    (hkept : nextLength kept = none) (hframes : kept ++ chunk <+: stream Frame.encode gs)
    (hnext : nextLength (kept ++ chunk) = some messageLength) :
    (kept.length : Int) ≤ messageLength + 4 := by
  have h4 := four_le_of_nextLength hframes hnext
  rcases nextLength_eq_none hkept with hshort | hlong
  · omega
  · obtain ⟨-, hword, -⟩ := nextLength_eq_some hnext
    by_cases hhead : 4 ≤ kept.length
    · rw [List.take_append_of_le_length hhead] at hword
      have hle : wrap32 (messageLength + 4) ≤ messageLength + 4 := by
        have hlt := ofLe32_lt (kept.take 4)
        obtain ⟨k, hk⟩ := wrap32_eq_sub (messageLength + 4)
        have hrange := wrap32_range (messageLength + 4)
        omega
      rw [hword] at hlong
      omega
    · omega

theorem Ahead.step (ha : Ahead s) (hi : Aligned s) (hd : Proper s act) (hc : Completes s act)
    (h : s.step act = some s') : Ahead s' := by
  cases act with
  | recv chunk =>
    obtain ⟨gs, hgs⟩ := hd.2 chunk rfl
    obtain ⟨hloop, -, -, rfl⟩ := recv_step h
    intro l hl
    obtain rfl := Option.some.inj hl
    rw [hi.enter_pStart hloop chunk]
    rcases hc with hnil | hcomplete
    · rw [hnil]
      exact .inl (Int.le_of_eq (Int.sub_zero _).symm)
    · obtain ⟨messageLength, hnext⟩ := Option.isSome_iff_exists.mp hcomplete
      have hle := tail_le_of_completed (hi.rests hloop) hgs hnext
      exact .inr ⟨messageLength, hnext, by omega⟩
  | pass =>
    obtain ⟨l, hl⟩ := pass_loop h
    rcases hi.pass_cases hl hd h with ⟨-, hnone, -⟩ | ⟨f, rest, -, hnext, -, hloop⟩
    · intro l' hl'
      rw [hnone] at hl'
      cases hl'
    · intro l' hl'
      rw [hloop, next] at hl'
      split at hl'
      · cases hl'
      · obtain rfl := Option.some.inj hl'
        refine .inl ?_
        rcases ha l hl with hstart | ⟨messageLength, hown, hend⟩
        · simp only
          omega
        · obtain rfl := Option.some.inj (hown.symm.trans hnext)
          exact hend

-- ---------------------------------------------------------------------------
-- The copies
-- ---------------------------------------------------------------------------

theorem Aligned.copyApart (hi : Aligned s) (ha : Ahead s) : CopyApart s := by
  intro l hl hsaves _
  have hnext := (hi.good.window l hl).saves_iff.mp hsaves
  rcases ha l hl with hstart | ⟨messageLength, hsome, -⟩
  · exact .inr (.inl (by omega))
  · rw [hnext] at hsome
    cases hsome

/-- A chunk that goes on with a kept tail and completes no frame is copied with
it, to where the tail begins in front of. -/
theorem Aligned.not_copyApart (hi : Aligned s) (hd : Proper s act) (hc : ¬ Completes s act)
    (h : s.step act = some s') : ¬ CopyApart s' := by
  intro hcopy
  cases act with
  | pass => exact hc trivial
  | recv chunk =>
    have hgood := (hi.step hd h).good
    obtain ⟨hloop, hne, -, rfl⟩ := recv_step h
    obtain ⟨hkept, hnone⟩ := not_or.mp hc
    have hwindow := hgood.window _ rfl
    have hsaves := hwindow.saves_iff.mpr (Option.not_isSome_iff_eq_none.mp hnone)
    have htotal := hwindow.1
    have hpos := List.length_pos_iff.mpr hkept
    have hchunk := List.length_pos_iff.mpr hne
    rw [List.length_append] at htotal
    have hapart := hcopy _ rfl hsaves (by omega)
    rw [hi.enter_pStart hloop chunk, htotal] at hapart
    unfold Apart at hapart
    omega

-- ---------------------------------------------------------------------------
-- Runs
-- ---------------------------------------------------------------------------

theorem Aligned.along {as : List ReceiveAct} {gs : List Frame} (hi : Aligned s)
    (hstream : s.pending ++ received as <+: stream Frame.encode gs)
    (hinside : (receiver recvbuf).Throughout Inside s as)
    (hs : (receiver recvbuf).runFrom s as = some t) : (receiver recvbuf).Along Proper s as := by
  induction as generalizing s gs with
  | nil => trivial
  | cons act as ih =>
    obtain ⟨s', hstep, hrest⟩ := Option.bind_eq_some_iff.mp hs
    have hstays := hinside.2
    rw [hstep] at hstays
    have hproper : Proper s act := by
      refine ⟨fun s'' hs'' => ?_, ?_⟩
      · obtain rfl := Option.some.inj (hstep.symm.trans hs'')
        exact hstays.here
      · rintro chunk rfl
        rw [received, ← List.append_assoc] at hstream
        exact ⟨gs, (List.prefix_append _ _).trans hstream⟩
    have hi' := hi.step hproper hstep
    refine ⟨hproper, ?_⟩
    rw [hstep]
    cases act with
    | recv chunk =>
      obtain ⟨-, -, -, rfl⟩ := recv_step hstep
      rw [received, ← List.append_assoc] at hstream
      exact ih hi' hstream hstays hrest
    | pass =>
      obtain ⟨l, hl⟩ := pass_loop hstep
      rcases hi.pass_cases hl hproper hstep with ⟨-, -, hpending⟩ | ⟨f, rest, hpending, -, hleft, -⟩
      · exact ih hi' (by rwa [hpending]) hstays hrest
      · rw [hpending, received, List.append_assoc] at hstream
        obtain ⟨gs', hgs'⟩ := rest_prefix hstream
        exact ih hi' (by rwa [hleft]) hstays hrest

theorem aligned_ahead (h : (receiver recvbuf).ReachesUnder (Machine.Both Completes Proper) s) :
    Aligned s ∧ Ahead s :=
  h.invariant (I := fun s => Aligned s ∧ Ahead s) ⟨aligned_init recvbuf, fun _ => nofun⟩
    fun _ _ _ _ hi hc hs => ⟨hi.1.step hc.2 hs, hi.2.step hi.1 hc.2 hc.1 hs⟩

/-- In a run that receives a stream of frames and keeps its pointers in `recvbuf`,
every copy is of ranges that are apart or the same if and only if every chunk
that comes while a tail is kept completes its frame. -/
theorem copies_apart_iff (h : (receiver recvbuf).run as = some t)
    (hinside : (receiver recvbuf).Throughout Inside (receiver recvbuf).init as)
    (hstream : received as <+: stream Frame.encode fs) :
    (receiver recvbuf).Throughout CopyApart (receiver recvbuf).init as ↔
      (receiver recvbuf).Along Completes (receiver recvbuf).init as :=
  Machine.throughout_iff_along (D := Proper)
    (fun _ hr => (aligned_ahead hr).1.copyApart (aligned_ahead hr).2)
    (fun _ _ _ hr hd hc hs => (aligned_ahead hr).1.not_copyApart hd hc hs)
    .init ((aligned_init recvbuf).along hstream hinside h) h

def heartBeat : Frame := ⟨le32 99, by decide, by decide⟩

theorem beatsInPieces_apart : (receiver fun _ => 7).Throughout CopyApart
    (receiver fun _ => 7).init beatsInPieces := by
  obtain ⟨s, hs⟩ := Option.isSome_iff_exists.mp
    (show ((receiver fun _ => 7).run beatsInPieces).isSome = true by decide +kernel)
  have hstream : received beatsInPieces <+: stream Frame.encode [heartBeat, heartBeat] := by decide
  exact (copies_apart_iff hs (by decide +kernel) hstream).mpr (by decide +kernel)

def beatInThree : List ReceiveAct := [.recv [4, 0, 0, 0, 99], .pass, .recv [0]]

theorem beatInThree_overlaps : ¬ ∀ recvbuf as t fs, (receiver recvbuf).run as = some t →
    (receiver recvbuf).Throughout Inside (receiver recvbuf).init as →
    received as <+: stream Frame.encode fs →
    (receiver recvbuf).Throughout CopyApart (receiver recvbuf).init as := by
  intro h
  obtain ⟨t, hrun⟩ := Option.isSome_iff_exists.mp
    (show ((receiver fun _ => 7).run beatInThree).isSome = true by decide +kernel)
  have hstream : received beatInThree <+: stream Frame.encode [heartBeat] := by decide
  have hcopies := h _ _ t _ hrun (by decide +kernel) hstream
  revert hcopies
  decide +kernel

end Receiver

end DevAdapter
