import DevAdapter.Server.Termination

/-!
# The bounds of the receive buffer

`recvbuf` has `BUFFER_SIZE` bytes. `Access` lists the offsets a call of
`receive` reads and writes. They lie in the buffer as long as no chunk is longer
than what the headroom leaves, and no incomplete frame is longer than the
headroom when a call ends.
-/

namespace DevAdapter

open OffsetMemory Word32 Framing

/-- The offsets of `recvbuf` that a call of `receive` accesses, the loop being
entered with `start` once `recv` has stored `n` bytes. -/
inductive Access (m : Mem UInt8) (n : Nat) (start : Loop) (i : Int) : Prop
  | recv (hlow : headroom ≤ i) (hhigh : i < headroom + n)
  | length {l} (hl : Passes m start l) (hhead : minHeaderLen < l.totalByte) (hlow : l.pStart ≤ i)
      (hhigh : i < l.pStart + 4)
  | type {l next messageLength} (hl : Passes m start l)
      (hdispatch : iterate m l = .dispatch messageLength next) (hlow : l.pStart + 4 ≤ i)
      (hhigh : i < l.pStart + 4 + 4)
  | json {l next messageLength type json len} (hl : Passes m start l)
      (hdispatch : iterate m l = .dispatch messageLength next)
      (hcall : processMessage m l.pStart messageLength = some (type, some (m, json), len))
      (hlow : json ≤ i) (hhigh : i < json + len)
  | copyFrom {l} (hl : Passes m start l) (hsave : iterate m l = .save) (hlow : l.pStart ≤ i)
      (hhigh : i < l.pStart + l.totalByte)
  | copyTo {l} (hl : Passes m start l) (hsave : iterate m l = .save)
      (hlow : headroom - l.totalByte ≤ i) (hhigh : i < headroom)

/-- The calls for the chunks return, access nothing outside `recvbuf` and carry
over no more than the headroom. -/
def InBounds (fuel : Nat) (b : ReceiveBuf) : List (List UInt8) → Prop
  | [] => b.gMoreData ≤ headroom
  | c :: cs =>
    b.gMoreData ≤ headroom ∧
      (∀ i, Access (b.recv c).recvbuf c.length (b.enter c) i → 0 ≤ i ∧ i < bufferSize) ∧
      ∃ calls b', receive fuel b c = some (calls, b') ∧ InBounds fuel b' cs

-- ---------------------------------------------------------------------------
-- The passes over a stream
-- ---------------------------------------------------------------------------

theorem length_tail_of_save {m : Mem UInt8} {p : Int} {n : Nat} {fs : List Frame}
    (hsmall : ∀ f ∈ fs, f.encode.length < 2 ^ 31) (hn : n < 2 ^ 31)
    (hw : m.read p n = (stream Frame.encode fs).take n)
    (hlen : n ≤ (stream Frame.encode fs).length) (hsave : iterate m ⟨p, n⟩ = .save) :
    (tail Frame.encode fs n).length = n := by
  cases fs with
  | nil =>
    obtain rfl : n = 0 := by simpa using hlen
    rfl
  | cons f fs =>
    by_cases hle : f.encode.length ≤ n
    · have h4 : 4 ≤ n := by
        rw [f.length_encode] at hle
        omega
      rw [iterate_whole hn (myNtohl_window hw h4) hle] at hsave
      cases hsave
    · exact length_tail_of_incomplete Frame.encode hle

theorem Passes.window {m : Mem UInt8} {p : Int} {n : Nat} {fs : List Frame} {l : Loop}
    (hsmall : ∀ f ∈ fs, f.encode.length < 2 ^ 31) (hn : n < 2 ^ 31)
    (hw : m.read p n = (stream Frame.encode fs).take n)
    (hlen : n ≤ (stream Frame.encode fs).length) (hl : Passes m ⟨p, n⟩ l) :
    ∃ (gs : List Frame) (k : Nat), k ≤ n ∧ l = ⟨p + k, (n - k : Nat)⟩ ∧
      (∀ f ∈ gs, f.encode.length < 2 ^ 31) ∧
      m.read (p + k) (n - k) = (stream Frame.encode gs).take (n - k) ∧
      n - k ≤ (stream Frame.encode gs).length ∧
      (tail Frame.encode gs (n - k)).length = (tail Frame.encode fs n).length := by
  induction hl with
  | start => exact ⟨fs, 0, Nat.zero_le _, by simp, hsmall, by simpa using hw, hlen, rfl⟩
  | next _ hdispatch _ ih =>
    obtain ⟨gs, k, hk, rfl, hgs, hwindow, hahead, htail⟩ := ih
    cases gs with
    | nil =>
      have hnone : n - k = 0 := by simpa using hahead
      rw [hnone, iterate_short (by omega)] at hdispatch
      cases hdispatch
    | cons g gs =>
      by_cases hle : g.encode.length ≤ n - k
      · have h4 : 4 ≤ n - k := by
          rw [g.length_encode] at hle
          omega
        rw [iterate_whole (by omega) (myNtohl_window hwindow h4) hle] at hdispatch
        cases hdispatch
        have hat : p + k + g.encode.length = p + ((k + g.encode.length : Nat) : Int) := by omega
        have hrest := (window_split hwindow hle).2
        rw [hat, Nat.sub_sub] at hrest
        rw [tail_cons hle, Nat.sub_sub] at htail
        rw [stream_cons, List.length_append] at hahead
        exact ⟨gs, k + g.encode.length, by omega, by rw [hat, Nat.sub_sub],
          fun f hf => hgs f (List.mem_cons_of_mem _ hf), hrest, by omega, htail⟩
      · have hsave : iterate m ⟨p + k, (n - k : Nat)⟩ = .save := by
          rcases Nat.lt_or_ge 4 (n - k) with h | h
          · exact iterate_incomplete (hgs g (by simp)) (myNtohl_window hwindow (by omega)) hle
          · exact iterate_short h
        rw [hsave] at hdispatch
        cases hdispatch

theorem dispatch_frame {m : Mem UInt8} {p : Int} {n : Nat} {fs : List Frame} {next : Loop}
    (hsmall : ∀ f ∈ fs, f.encode.length < 2 ^ 31) (hn : n < 2 ^ 31)
    (hw : m.read p n = (stream Frame.encode fs).take n)
    (hlen : n ≤ (stream Frame.encode fs).length)
    (hdispatch : iterate m ⟨p, n⟩ = .dispatch messageLength next) :
    4 ≤ messageLength ∧ messageLength + 4 ≤ n := by
  cases fs with
  | nil =>
    obtain rfl : n = 0 := by simpa using hlen
    rw [iterate_short (by omega)] at hdispatch
    cases hdispatch
  | cons f fs =>
    have h4 := f.four_le
    by_cases hle : f.encode.length ≤ n
    · rw [iterate_whole hn (myNtohl_window hw (by rw [f.length_encode] at hle; omega)) hle] at hdispatch
      cases hdispatch
      rw [f.length_encode] at hle
      omega
    · have hsave : iterate m ⟨p, n⟩ = .save := by
        rcases Nat.lt_or_ge 4 n with h | h
        · exact iterate_incomplete (hsmall f (by simp)) (myNtohl_window hw (by omega)) hle
        · exact iterate_short h
      rw [hsave] at hdispatch
      cases hdispatch

theorem processMessage_json {m : Mem UInt8} {buf length json len : Int}
    (h : processMessage m buf length = some (type, some (m, json), len)) :
    json = buf + 4 + 4 ∧ len = length - 4 := by
  simp only [processMessage] at h
  repeat' split at h
  all_goals exact ⟨by simp_all, by simp_all⟩

-- ---------------------------------------------------------------------------
-- One call of `receive`
-- ---------------------------------------------------------------------------

theorem Access.range {m : Mem UInt8} {p : Int} {n c : Nat} {fs : List Frame} {i : Int}
    (hsmall : ∀ f ∈ fs, f.encode.length < 2 ^ 31) (hn : n < 2 ^ 31)
    (hw : m.read p n = (stream Frame.encode fs).take n)
    (hlen : n ≤ (stream Frame.encode fs).length) (hp : p ≤ headroom)
    (hend : p + n = headroom + c) (h : Access m c ⟨p, n⟩ i) :
    (p ≤ i ∨ headroom - (tail Frame.encode fs n).length ≤ i) ∧ i < headroom + c := by
  cases h with
  | recv hlow hhigh => exact ⟨.inl (by omega), hhigh⟩
  | length hl hhead hlow hhigh =>
    obtain ⟨gs, k, hk, rfl, -⟩ := hl.window hsmall hn hw hlen
    unfold minHeaderLen at hhead
    simp only at hhead hlow hhigh
    exact ⟨.inl (by omega), by omega⟩
  | type hl hdispatch hlow hhigh =>
    obtain ⟨gs, k, hk, rfl, hgs, hwindow, hahead, -⟩ := hl.window hsmall hn hw hlen
    obtain ⟨h4, hfit⟩ := dispatch_frame hgs (by omega) hwindow hahead hdispatch
    simp only at hlow hhigh
    exact ⟨.inl (by omega), by omega⟩
  | json hl hdispatch hcall hlow hhigh =>
    obtain ⟨gs, k, hk, rfl, hgs, hwindow, hahead, -⟩ := hl.window hsmall hn hw hlen
    obtain ⟨h4, hfit⟩ := dispatch_frame hgs (by omega) hwindow hahead hdispatch
    obtain ⟨rfl, rfl⟩ := processMessage_json hcall
    simp only at hlow hhigh
    exact ⟨.inl (by omega), by omega⟩
  | copyFrom hl hsave hlow hhigh =>
    obtain ⟨gs, k, hk, rfl, -⟩ := hl.window hsmall hn hw hlen
    simp only at hlow hhigh
    exact ⟨.inl (by omega), by omega⟩
  | copyTo hl hsave hlow hhigh =>
    obtain ⟨gs, k, hk, rfl, hgs, hwindow, hahead, htail⟩ := hl.window hsmall hn hw hlen
    rw [← htail, length_tail_of_save hgs (by omega) hwindow hahead hsave]
    exact ⟨.inr hlow, by omega⟩

-- ---------------------------------------------------------------------------
-- All calls of `receive`
-- ---------------------------------------------------------------------------

/-- The chunks fit behind the headroom and the incomplete tails into it, the
first chunk following `n` bytes. -/
structure Fits (fs : List Frame) (n : Nat) (chunks : List (List UInt8)) : Prop where
  length_le : ∀ c ∈ chunks, c.length ≤ bufferSize - headroom
  tail_le : ∀ k ≤ chunks.length,
    (tail Frame.encode fs (n + (chunks.take k).flatten.length)).length ≤ headroom

theorem fits_nil {fs : List Frame} {n : Nat} :
    Fits fs n [] ↔ (tail Frame.encode fs n).length ≤ headroom := by
  constructor
  · intro h
    simpa using h.tail_le 0 (Nat.zero_le _)
  · intro h
    exact ⟨by simp, by simpa using h⟩

theorem fits_cons {fs : List Frame} {n : Nat} {c : List UInt8} {cs : List (List UInt8)} :
    Fits fs n (c :: cs) ↔ (tail Frame.encode fs n).length ≤ headroom ∧
      c.length ≤ bufferSize - headroom ∧ Fits fs (n + c.length) cs := by
  constructor
  · rintro ⟨hlength, htail⟩
    refine ⟨by simpa using htail 0 (Nat.zero_le _), hlength c (by simp), ?_⟩
    refine ⟨fun d hd => hlength d (by simp [hd]), fun k hk => ?_⟩
    simpa [Nat.add_assoc] using htail (k + 1) (by simpa using hk)
  · rintro ⟨hfirst, hchunk, hlength, htail⟩
    refine ⟨by simpa using ⟨hchunk, hlength⟩, fun k hk => ?_⟩
    cases k with
    | zero => simpa using hfirst
    | succ k => simpa [Nat.add_assoc] using htail k (by simpa using hk)

/-- The induction is on the chunks; the tail is all that one call hands to the next. -/
theorem inBounds_iff_fits {fs : List Frame} {chunks : List (List UInt8)} {fuel n : Nat}
    {b : ReceiveBuf} (hsmall : ∀ f ∈ fs, f.encode.length < 2 ^ 31) (hfuel : bufferSize < fuel)
    (hne : ∀ c ∈ chunks, c ≠ []) (hc : chunks.flatten <+: (stream Frame.encode fs).drop n)
    (hb : b.Holds (tail Frame.encode fs n)) :
    InBounds fuel b chunks ↔ Fits fs n chunks := by
  induction chunks generalizing n b with
  | nil => rw [InBounds, fits_nil, hb.1, Int.ofNat_le]
  | cons c cs ih =>
    rw [InBounds, fits_cons, hb.1, Int.ofNat_le]
    refine and_congr_right fun ht => ?_
    have hpos : 0 < c.length := List.length_pos_iff.mpr (hne c (by simp))
    obtain ⟨hfirst, hrest⟩ := prefix_flatten_cons hc
    have hroom : headroom ≤ bufferSize := by decide
    have hbuf : bufferSize < 2 ^ 31 := by decide
    by_cases hle : c.length ≤ bufferSize - headroom
    · obtain ⟨b', hcall, hholds⟩ := receive_spec fuel hsmall (hne c (by simp)) hfirst
        (by omega) (by omega) hb
      have hnext := ih (fun d hd => hne d (by simp [hd])) hrest hholds
      obtain ⟨henter, hwindow, hlen⟩ := ReceiveBuf.recv_window hfirst (by omega) hb
      constructor
      · rintro ⟨-, calls, b'', hcall', hbounds⟩
        rw [hcall] at hcall'
        cases hcall'
        exact ⟨hle, hnext.mp hbounds⟩
      · rintro ⟨-, hfits⟩
        refine ⟨fun i hi => ?_, _, b', hcall, hnext.mpr hfits⟩
        have htail := hfits.tail_le 0 (Nat.zero_le _)
        simp only [List.take_zero, List.flatten_nil, List.length_nil, Nat.add_zero] at htail
        rw [henter] at hi
        have hrange := hi.range (rest_small hsmall) (by omega) hwindow hlen (by omega) (by omega)
        rw [← tail_add] at hrange
        omega
    · constructor
      · rintro ⟨haccess, -⟩
        have hlast := haccess (headroom + c.length - 1) (.recv (by omega) (by omega))
        omega
      · rintro ⟨h, -⟩
        exact absurd h hle

/-- `receive` keeps to its buffer, over all its calls, exactly when no `recv`
returns more than the headroom leaves and no call ends with more than the
headroom of a frame that is not whole. -/
theorem receive_inBounds_iff {fs : List Frame} {chunks : List (List UInt8)} {fuel : Nat}
    {b : ReceiveBuf} (hframes : ∀ f ∈ fs, f.encode.length ≤ bufferSize)
    (hne : ∀ c ∈ chunks, c ≠ []) (hc : chunks.flatten <+: stream Frame.encode fs)
    (hfuel : bufferSize < fuel) (hb : b.gMoreData = 0) :
    InBounds fuel b chunks ↔ Fits fs 0 chunks := by
  have hsmall : ∀ f ∈ fs, f.encode.length < 2 ^ 31 := fun f hf =>
    Nat.lt_of_le_of_lt (hframes f hf) (by decide)
  exact inBounds_iff_fits hsmall hfuel hne (by simpa using hc)
    (by rw [tail_zero]; exact ReceiveBuf.holds_nil hb)

theorem cutInWords_inBounds : InBounds 10241 ⟨0, fun _ => 0⟩ cutInWords :=
  have hfits : Fits beatThenInquiry 0 cutInWords := ⟨by decide, by decide⟩
  (receive_inBounds_iff (by decide) (by decide) (by decide) (by decide) rfl).mpr hfits

def zeroFrame (n : Nat) (h : 4 ≤ n) (h' : n < 2 ^ 31) : Frame :=
  ⟨List.replicate n 0, by simpa using h, by simpa using h'⟩

theorem length_zeroFrame (n : Nat) (h : 4 ≤ n) (h' : n < 2 ^ 31) :
    (zeroFrame n h h').encode.length = n + 4 := by
  rw [Frame.length_encode, zeroFrame, List.length_replicate]

theorem zeroFrame_overflows : ¬ ∀ fs chunks fuel b, (∀ f ∈ fs, f.encode.length ≤ bufferSize) →
    (∀ c ∈ chunks, c ≠ [] ∧ c.length ≤ bufferSize) → chunks.flatten <+: stream Frame.encode fs →
    bufferSize < fuel → b.gMoreData = 0 → InBounds fuel b chunks := by
  intro h
  let f := zeroFrame 10236 (by decide) (by decide)
  have hlen : f.encode.length = 10240 := length_zeroFrame _ _ _
  have hchunk : (f.encode.take 8241).length = 8241 := by
    rw [List.length_take, hlen]
    rfl
  have hbounds := h [f] [f.encode.take 8241] 10241 ⟨0, fun _ => 0⟩
    (fun g hg => by rw [List.mem_singleton.mp hg, hlen]; decide)
    (fun c hc => by
      rw [List.mem_singleton.mp hc, ← List.length_pos_iff, hchunk]
      decide)
    (by simpa using List.take_prefix _ _) (by decide) rfl
  have hlast := hbounds.2.1 10240 (.recv (by decide) (by rw [hchunk]; decide))
  exact absurd hlast.2 (by decide)

end DevAdapter
