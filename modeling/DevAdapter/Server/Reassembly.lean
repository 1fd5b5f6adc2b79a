import DevAdapter.Lib.Framing
import DevAdapter.Server.Receive

/-!
# Reassembly

A client sends frames; the chunks `recv` returns cut their stream anywhere.
`receive_reassembles`: the messages dispatched so far are the frames wholly
received so far, and the bytes kept in front of the headroom's end are the
tail of the stream that is in no such frame.
-/

namespace DevAdapter

open OffsetMemory Word32 Framing

/-- A frame as it is sent: a length word and that many bytes, the first four
of which are the type word. -/
structure Frame where
  body : List UInt8
  four_le : 4 ≤ body.length
  lt : body.length < 2 ^ 31

namespace Frame

def encode (f : Frame) : List UInt8 := le32 f.body.length ++ f.body

def message (f : Frame) : Message where
  length := f.body.length
  type := ofLe32 (f.body.take 4)
  json := f.body.drop 4

@[simp] theorem length_encode (f : Frame) : f.encode.length = f.body.length + 4 := by
  simp [encode, Nat.add_comm]

end Frame

theorem whole_zero (fs : List Frame) : whole Frame.encode fs 0 = [] := by
  cases fs <;> simp [whole]

theorem tail_zero (fs : List Frame) : tail Frame.encode fs 0 = [] := by
  cases fs <;> simp [tail]

theorem rest_zero (fs : List Frame) : rest Frame.encode fs 0 = fs := by
  cases fs <;> simp [rest]

-- ---------------------------------------------------------------------------
-- One pass of the loop
-- ---------------------------------------------------------------------------

/-- The headroom ends in `t`, and `gMoreData_` is its length. -/
def ReceiveBuf.Holds (b : ReceiveBuf) (t : List UInt8) : Prop :=
  b.gMoreData = t.length ∧ b.recvbuf.read (headroom - t.length) t.length = t

theorem ReceiveBuf.save_holds {b : ReceiveBuf} {p : Int} {n : Nat} (hn : 0 < n) :
    (b.save ⟨p, n⟩).Holds (b.recvbuf.read p n) := by
  have hpos : (0 : Int) < n := by omega
  refine ⟨by simp [ReceiveBuf.save], ?_⟩
  simp only [ReceiveBuf.save, hpos, if_true, Int.toNat_natCast, length_read]
  exact read_move b.recvbuf _ p n

theorem myNtohl_window {m : Mem UInt8} {p : Int} {n : Nat} {f : Frame} {fs : List Frame}
    (hw : m.read p n = (stream Frame.encode (f :: fs)).take n) (hn : 4 ≤ n) :
    myNtohl m p = f.body.length := by
  have h := congrArg (List.take 4) hw
  have hlt := f.lt
  rw [take_read m p hn, List.take_take, Nat.min_eq_left hn, stream_cons, Frame.encode,
    List.append_assoc, List.take_left' (length_le32 _)] at h
  rw [myNtohl, h, ofLe32_le32_of_range (by omega) (by omega)]

theorem window_split {m : Mem UInt8} {p : Int} {n : Nat} {f : Frame} {fs : List Frame}
    (hw : m.read p n = (stream Frame.encode (f :: fs)).take n) (hle : f.encode.length ≤ n) :
    m.read p f.encode.length = f.encode ∧
      m.read (p + f.encode.length) (n - f.encode.length) =
        (stream Frame.encode fs).take (n - f.encode.length) := by
  rw [stream_cons, List.take_append, List.take_of_length_le hle] at hw
  constructor
  · rw [← take_read m p hle, hw, List.take_left]
  · rw [← drop_read m p hle, hw, List.drop_left]

theorem messageAt_frame {m : Mem UInt8} {p : Int} {f : Frame}
    (hf : m.read p f.encode.length = f.encode) :
    messageAt m p f.body.length = f.message := by
  have h4 := f.four_le
  have hbody : m.read (p + 4) f.body.length = f.body := by
    have h := drop_read m p (k := 4) (n := f.encode.length) (by simp)
    rw [hf, Frame.encode, List.drop_left' (length_le32 _)] at h
    simpa using h.symm
  have htype : m.read (p + 4) 4 = f.body.take 4 := by rw [← take_read m (p + 4) h4, hbody]
  have hjson : m.read (p + 4 + 4) (f.body.length - 4) = f.body.drop 4 := by
    have h := drop_read m (p + 4) h4
    rw [hbody] at h
    exact h.symm
  have hsize : ((f.body.length : Int) - 4).toNat = f.body.length - 4 := by omega
  simp only [messageAt, Frame.message, myNtohl, htype, hsize, hjson]

theorem iterate_short {m : Mem UInt8} {p : Int} {n : Nat} (hn : n ≤ 4) :
    iterate m ⟨p, n⟩ = .save := by
  have h : (n : Int) ≤ minHeaderLen := by unfold minHeaderLen; omega
  simp [iterate, h]

theorem iterate_incomplete {m : Mem UInt8} {p : Int} {n : Nat} {f : Frame}
    (hsmall : f.encode.length < 2 ^ 31) (hlen : myNtohl m p = f.body.length)
    (hle : ¬ f.encode.length ≤ n) : iterate m ⟨p, n⟩ = .save := by
  rw [f.length_encode] at hsmall hle
  have hwrap : wrap32 (f.body.length + minHeaderLen) = f.body.length + 4 :=
    wrap32_eq (by unfold minHeaderLen; omega) (by unfold minHeaderLen; omega)
  have hlt : (n : Int) < f.body.length + 4 := by omega
  simp [iterate, hlen, hwrap, hlt]

theorem iterate_whole {m : Mem UInt8} {p : Int} {n : Nat} {f : Frame} (hn : n < 2 ^ 31)
    (hlen : myNtohl m p = f.body.length) (hle : f.encode.length ≤ n) :
    iterate m ⟨p, n⟩ =
      .dispatch f.body.length ⟨p + f.encode.length, (n - f.encode.length : Nat)⟩ := by
  have h4 := f.four_le
  rw [f.length_encode] at *
  have hwrap : wrap32 (f.body.length + minHeaderLen) = f.body.length + 4 :=
    wrap32_eq (by unfold minHeaderLen; omega) (by unfold minHeaderLen; omega)
  have hrest : wrap32 (wrap32 (n - f.body.length) - minHeaderLen) =
      ((n - (f.body.length + 4) : Nat) : Int) := by
    rw [wrap32_eq (x := n - f.body.length) (by omega) (by omega),
      wrap32_eq (by unfold minHeaderLen; omega) (by unfold minHeaderLen; omega)]
    unfold minHeaderLen
    omega
  have hhead : ¬ (n : Int) ≤ minHeaderLen := by unfold minHeaderLen; omega
  have hfit : ¬ (n : Int) < f.body.length + 4 := by omega
  have hp : p + f.body.length + minHeaderLen = p + ((f.body.length + 4 : Nat) : Int) := by
    unfold minHeaderLen
    omega
  simp only [iterate, hhead, hlen, hwrap, hfit, hrest, hp, if_false]

-- ---------------------------------------------------------------------------
-- One call of `receive`
-- ---------------------------------------------------------------------------

theorem whole_cons {f : Frame} {fs : List Frame} {n : Nat} (hle : f.encode.length ≤ n) :
    whole Frame.encode (f :: fs) n = f :: whole Frame.encode fs (n - f.encode.length) := by
  rw [whole, if_pos hle]

theorem tail_cons {f : Frame} {fs : List Frame} {n : Nat} (hle : f.encode.length ≤ n) :
    tail Frame.encode (f :: fs) n = tail Frame.encode fs (n - f.encode.length) := by
  rw [tail, if_pos hle]

/-- The loop on a window of `n` stream bytes: it dispatches the whole frames
and keeps the tail. The induction is on the frames ahead; the buffer does not
change before the last pass. -/
theorem receiveLoop_spec {fs : List Frame} {fuel n : Nat} {b : ReceiveBuf} {p : Int}
    (hsmall : ∀ f ∈ fs, f.encode.length < 2 ^ 31) (hpos : 0 < n) (hfuel : n < fuel)
    (hn : n < 2 ^ 31) (hlen : n ≤ (stream Frame.encode fs).length)
    (hw : b.recvbuf.read p n = (stream Frame.encode fs).take n) :
    ∃ b', receiveLoop fuel b ⟨p, n⟩ = some ((whole Frame.encode fs n).map Frame.message, b') ∧
      b'.Holds (tail Frame.encode fs n) := by
  induction fs generalizing fuel n p with
  | nil => simp at hlen; omega
  | cons f fs ih =>
    obtain ⟨fuel, rfl⟩ : ∃ k, fuel = k + 1 := ⟨fuel - 1, by omega⟩
    by_cases hle : f.encode.length ≤ n
    · have h8 : 8 ≤ f.encode.length := by
        have := f.four_le
        rw [f.length_encode]
        omega
      have hword := myNtohl_window hw (by omega)
      obtain ⟨hframe, hnext⟩ := window_split hw hle
      have hcall := messageAt_frame hframe
      rw [whole_cons hle, tail_cons hle]
      by_cases hz : n - f.encode.length = 0
      · refine ⟨{ b with gMoreData := 0 }, ?_, ?_⟩
        · simp only [receiveLoop, iterate_whole hn hword hle, hcall, hz, whole_zero,
            Int.natCast_zero, if_true, List.map_cons, List.map_nil]
        · rw [hz, tail_zero]
          exact ⟨rfl, rfl⟩
      · have hahead : n - f.encode.length ≤ (stream Frame.encode fs).length := by
          rw [stream_cons, List.length_append] at hlen
          omega
        have hfuel : n - f.encode.length < fuel := by omega
        obtain ⟨b', hloop, hholds⟩ := ih (fun g hg => hsmall g (List.mem_cons_of_mem _ hg))
          (by omega) hfuel (by omega) hahead hnext
        have hz' : ¬ ((n - f.encode.length : Nat) : Int) = 0 := by omega
        refine ⟨b', ?_, hholds⟩
        simp only [receiveLoop, iterate_whole hn hword hle, hcall, hz', hloop,
          if_false, Option.map_some, List.map_cons]
    · have hsave : iterate b.recvbuf ⟨p, n⟩ = .save := by
        rcases Nat.lt_or_ge 4 n with h | h
        · exact iterate_incomplete (hsmall f (by simp)) (myNtohl_window hw (by omega)) hle
        · exact iterate_short h
      refine ⟨b.save ⟨p, n⟩, ?_, ?_⟩
      · simp only [receiveLoop, hsave, whole, hle, if_false, List.map_nil]
      · simp only [tail, hle, if_false, ← hw]
        exact ReceiveBuf.save_holds hpos

theorem ReceiveBuf.read_recv {b : ReceiveBuf} {t c : List UInt8} (hb : b.Holds t) :
    (b.recv c).recvbuf.read (headroom - t.length) (t.length + c.length) = t ++ c := by
  have hat : (headroom : Int) - t.length + t.length = headroom := by omega
  have hkeep : (b.recvbuf.write headroom c).read (headroom - t.length) t.length = t := by
    rw [read_write_of_disjoint _ _ _ (by omega)]
    exact hb.2
  rw [ReceiveBuf.recv, read_add, hat, hkeep, read_write_self]

theorem rest_small {fs : List Frame} {n : Nat} (hsmall : ∀ f ∈ fs, f.encode.length < 2 ^ 31) :
    ∀ f ∈ rest Frame.encode fs n, f.encode.length < 2 ^ 31 := by
  intro f hf
  apply hsmall
  rw [← whole_append_rest Frame.encode fs n]
  exact List.mem_append_right _ hf

theorem ReceiveBuf.recv_window {fs : List Frame} {n : Nat} {b : ReceiveBuf} {c : List UInt8}
    (hc : (stream Frame.encode fs).take (n + c.length) = (stream Frame.encode fs).take n ++ c)
    (hn : (tail Frame.encode fs n).length + c.length < 2 ^ 31)
    (hb : b.Holds (tail Frame.encode fs n)) :
    b.enter c = ⟨headroom - (tail Frame.encode fs n).length,
        ((tail Frame.encode fs n).length + c.length : Nat)⟩ ∧
      (b.recv c).recvbuf.read (headroom - (tail Frame.encode fs n).length)
          ((tail Frame.encode fs n).length + c.length) =
        (stream Frame.encode (rest Frame.encode fs n)).take
          ((tail Frame.encode fs n).length + c.length) ∧
      (tail Frame.encode fs n).length + c.length ≤
        (stream Frame.encode (rest Frame.encode fs n)).length := by
  have happ := tail_append Frame.encode hc
  refine ⟨?_, ?_, ?_⟩
  · rw [ReceiveBuf.enter, hb.1, wrap32_eq (by omega) (by omega)]
    congr 1
    omega
  · rw [← happ]
    exact ReceiveBuf.read_recv hb
  · have := congrArg List.length happ
    simp only [List.length_append, List.length_take] at this
    omega

theorem receive_spec (fuel : Nat) {fs : List Frame} {n : Nat} {b : ReceiveBuf} {c : List UInt8}
    (hsmall : ∀ f ∈ fs, f.encode.length < 2 ^ 31) (hne : c ≠ [])
    (hc : (stream Frame.encode fs).take (n + c.length) = (stream Frame.encode fs).take n ++ c)
    (hfuel : (tail Frame.encode fs n).length + c.length < fuel)
    (hn : (tail Frame.encode fs n).length + c.length < 2 ^ 31)
    (hb : b.Holds (tail Frame.encode fs n)) :
    ∃ b', receive fuel b c = some ((whole Frame.encode (rest Frame.encode fs n)
        ((tail Frame.encode fs n).length + c.length)).map Frame.message, b') ∧
      b'.Holds (tail Frame.encode fs (n + c.length)) := by
  have hpos : 0 < c.length := List.length_pos_iff.mpr hne
  obtain ⟨henter, hwindow, hlen⟩ := ReceiveBuf.recv_window hc hn hb
  obtain ⟨b', hloop, hholds⟩ :=
    receiveLoop_spec (rest_small hsmall) (by omega) hfuel hn hlen hwindow
  rw [tail_add]
  refine ⟨b', ?_, hholds⟩
  rw [receive, if_neg hne, henter, hloop]

-- ---------------------------------------------------------------------------
-- All calls of `receive`
-- ---------------------------------------------------------------------------

/-- A way `recv` may cut the stream of the frames: what each call returns fits
behind the headroom, and each incomplete tail fits into it. -/
structure Cutting (fs : List Frame) (chunks : List (List UInt8)) : Prop where
  flatten_eq : chunks.flatten = stream Frame.encode fs
  ne_nil : ∀ c ∈ chunks, c ≠ []
  length_le : ∀ c ∈ chunks, c.length ≤ bufferSize - headroom
  tail_le : ∀ k ≤ chunks.length,
    (tail Frame.encode fs (chunks.take k).flatten.length).length ≤ headroom

theorem Cutting.length_encode_le {fs : List Frame} {chunks : List (List UInt8)}
    (h : Cutting fs chunks) {f : Frame} (hf : f ∈ fs) : f.encode.length ≤ bufferSize := by
  have hf0 : f ∈ rest Frame.encode fs 0 := by rwa [rest_zero]
  refine length_encode_le_of_cuts Frame.encode (T := headroom) (C := bufferSize - headroom) 0
    (chunks.map List.length) ?_ ?_ ?_ hf0
  · rw [Nat.zero_add, ← List.length_flatten, h.flatten_eq]
  · simpa using h.length_le
  · intro k hk
    rw [Nat.zero_add, ← List.map_take, ← List.length_flatten]
    exact h.tail_le k (by simpa using hk)

/-- The calls of `receive` for the chunks that follow the first `n` bytes. The
induction is on the chunks; the tail is all that one call hands to the next. -/
theorem receiveAll_spec {fs : List Frame} {chunks : List (List UInt8)} {fuel n : Nat}
    {b : ReceiveBuf} (hsmall : ∀ f ∈ fs, f.encode.length < 2 ^ 31)
    (hfuel : bufferSize < fuel) (hne : ∀ c ∈ chunks, c ≠ [])
    (hle : ∀ c ∈ chunks, c.length ≤ bufferSize - headroom)
    (htail : ∀ k ≤ chunks.length,
      (tail Frame.encode fs (n + (chunks.take k).flatten.length)).length ≤ headroom)
    (hc : chunks.flatten <+: (stream Frame.encode fs).drop n)
    (hb : b.Holds (tail Frame.encode fs n)) :
    ∃ b', receiveAll fuel b chunks = some ((whole Frame.encode (rest Frame.encode fs n)
        ((tail Frame.encode fs n).length + chunks.flatten.length)).map Frame.message, b') ∧
      b'.Holds (tail Frame.encode fs (n + chunks.flatten.length)) := by
  induction chunks generalizing n b with
  | nil =>
    refine ⟨b, ?_, hb⟩
    simp [receiveAll, whole_rest_tail]
  | cons c cs ih =>
    obtain ⟨hfirst, hrest⟩ := prefix_flatten_cons hc
    have ht : (tail Frame.encode fs n).length ≤ headroom := htail 0 (Nat.zero_le _)
    have hcle := hle c (by simp)
    have hbuf : bufferSize < 2 ^ 31 := by decide
    have hroom : headroom ≤ bufferSize := by decide
    have htail' : ∀ k ≤ cs.length,
        (tail Frame.encode fs (n + c.length + (cs.take k).flatten.length)).length ≤ headroom := by
      intro k hk
      have := htail (k + 1) (by simpa using hk)
      simpa [Nat.add_assoc] using this
    obtain ⟨b₁, hcall, hholds₁⟩ := receive_spec fuel hsmall (hne c (by simp)) hfirst
      (by omega) (by omega) hb
    obtain ⟨b', hcalls, hholds⟩ := ih (fun d hd => hne d (by simp [hd]))
      (fun d hd => hle d (by simp [hd])) htail' hrest hholds₁
    refine ⟨b', ?_, ?_⟩
    · rw [List.flatten_cons, List.length_append, ← Nat.add_assoc, whole_add, ← rest_add, ← tail_add]
      simp [receiveAll, hcall, hcalls]
    · rwa [List.flatten_cons, List.length_append, ← Nat.add_assoc]

theorem ReceiveBuf.holds_nil {b : ReceiveBuf} (hb : b.gMoreData = 0) : b.Holds [] :=
  ⟨hb, rfl⟩

theorem Cutting.receiveAll_take {fs : List Frame} {chunks : List (List UInt8)}
    (h : Cutting fs chunks) {fuel : Nat} (hfuel : bufferSize < fuel) {b : ReceiveBuf}
    (hb : b.gMoreData = 0) {k : Nat} (hk : k ≤ chunks.length) :
    ∃ b', receiveAll fuel b (chunks.take k) =
        some ((whole Frame.encode fs (chunks.take k).flatten.length).map Frame.message, b') ∧
      b'.Holds (tail Frame.encode fs (chunks.take k).flatten.length) := by
  have hsmall : ∀ f ∈ fs, f.encode.length < 2 ^ 31 := by
    intro f hf
    have := h.length_encode_le hf
    have : bufferSize < 2 ^ 31 := by decide
    omega
  have htail : ∀ j ≤ (chunks.take k).length,
      (tail Frame.encode fs (0 + ((chunks.take k).take j).flatten.length)).length ≤ headroom := by
    intro j hj
    have := h.tail_le (min j k) (by omega)
    rwa [Nat.zero_add, List.take_take]
  have hprefix : (chunks.take k).flatten <+: (stream Frame.encode fs).drop 0 := by
    refine ⟨(chunks.drop k).flatten, ?_⟩
    rw [← List.flatten_append, List.take_append_drop, h.flatten_eq, List.drop_zero]
  obtain ⟨b', hcalls, hholds⟩ := receiveAll_spec hsmall hfuel
    (fun c hc => h.ne_nil c (List.mem_of_mem_take hc))
    (fun c hc => h.length_le c (List.mem_of_mem_take hc)) htail hprefix
    (b := b) (by rw [tail_zero]; exact ReceiveBuf.holds_nil hb)
  rw [rest_zero, tail_zero, List.length_nil, Nat.zero_add] at hcalls
  rw [Nat.zero_add] at hholds
  exact ⟨b', hcalls, hholds⟩

/-- After each call of `receive` the messages dispatched are the frames wholly
received, and the buffer holds the tail; and two cuttings of one stream
dispatch the same messages. -/
theorem receive_reassembles {fs : List Frame} {chunks : List (List UInt8)}
    (h : Cutting fs chunks) {fuel : Nat} (hfuel : bufferSize < fuel) {b : ReceiveBuf}
    (hb : b.gMoreData = 0) :
    (∀ k ≤ chunks.length, ∃ b', receiveAll fuel b (chunks.take k) =
        some ((whole Frame.encode fs (chunks.take k).flatten.length).map Frame.message, b') ∧
      b'.Holds (tail Frame.encode fs (chunks.take k).flatten.length)) ∧
    ∀ chunks' b₁, Cutting fs chunks' → b₁.gMoreData = 0 →
      (receiveAll fuel b chunks).map Prod.fst = (receiveAll fuel b₁ chunks').map Prod.fst := by
  refine ⟨fun k hk => h.receiveAll_take hfuel hb hk, ?_⟩
  intro chunks' b₁ h' hb₁
  obtain ⟨b', hcalls, -⟩ := h.receiveAll_take hfuel hb (Nat.le_refl _)
  obtain ⟨b₁', hcalls', -⟩ := h'.receiveAll_take hfuel hb₁ (Nat.le_refl _)
  rw [List.take_length, h.flatten_eq] at hcalls
  rw [List.take_length, h'.flatten_eq] at hcalls'
  rw [hcalls, hcalls', Option.map_some, Option.map_some]

def beatThenInquiry : List Frame :=
  [⟨[99, 0, 0, 0], by decide, by decide⟩, ⟨[1, 0, 0, 0, 7], by decide, by decide⟩]

def cutInWords : List (List UInt8) :=
  [[4, 0], [0, 0, 99, 0, 0, 0, 5], [0, 0, 0, 1, 0, 0, 0, 7]]

theorem cutInWords_cutting : Cutting beatThenInquiry cutInWords where
  flatten_eq := by decide
  ne_nil := by decide
  length_le := by decide
  tail_le := by decide

theorem cutInWords_reassembles :
    (∀ k ≤ cutInWords.length, ∃ b', receiveAll 10241 ⟨0, fun _ => 0⟩ (cutInWords.take k) =
        some ((whole Frame.encode beatThenInquiry (cutInWords.take k).flatten.length).map
          Frame.message, b') ∧
      b'.Holds (tail Frame.encode beatThenInquiry (cutInWords.take k).flatten.length)) ∧
    ∀ chunks' b₁, Cutting beatThenInquiry chunks' → b₁.gMoreData = 0 →
      (receiveAll 10241 ⟨0, fun _ => 0⟩ cutInWords).map Prod.fst =
        (receiveAll 10241 b₁ chunks').map Prod.fst :=
  receive_reassembles cutInWords_cutting (by decide) rfl

end DevAdapter
