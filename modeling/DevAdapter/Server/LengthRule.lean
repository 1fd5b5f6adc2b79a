import DevAdapter.Server.Reassembly

/-!
# The length rule

What the loop of `receive` makes of the bytes that wait, apart from where they
lie in memory: the length word it goes by, and how it splits a stream.
-/

namespace DevAdapter

open OffsetMemory Word32 Framing

/-- The length of the message that the bytes begin with, if `receive` takes it as whole. -/
def nextLength (bytes : List UInt8) : Option Int :=
  if bytes.length ≤ minHeaderLen then none
  else
    let messageLength := ofLe32 (bytes.take 4)
    if bytes.length < wrap32 (messageLength + minHeaderLen) then none else some messageLength

/-- A stream split into messages with their length words, and what is left. -/
def splitFrames : Nat → List UInt8 → Option (List (List UInt8) × List UInt8)
  | 0, _ => none
  | fuel + 1, bytes =>
    match nextLength bytes with
    | none => some ([], bytes)
    | some messageLength =>
      let size := (messageLength + minHeaderLen).toNat
      (splitFrames fuel (bytes.drop size)).map fun (frames, left) =>
        (bytes.take size :: frames, left)

theorem iterate_eq (m : Mem UInt8) (p : Int) (n : Nat) :
    iterate m ⟨p, n⟩ =
      match nextLength (m.read p n) with
      | none => .save
      | some messageLength => .dispatch messageLength
          { pStart := p + messageLength + minHeaderLen
            totalByte := wrap32 (wrap32 (n - messageLength) - minHeaderLen) } := by
  by_cases hhead : (n : Int) ≤ minHeaderLen
  · simp [iterate, nextLength, hhead]
  · have h4 : 4 ≤ n := by
      unfold minHeaderLen at hhead
      omega
    simp only [iterate, nextLength, myNtohl, hhead, length_read, if_false, take_read m p h4]
    by_cases hfit : (n : Int) < wrap32 (ofLe32 (m.read p 4) + minHeaderLen)
    · simp only [hfit, if_true]
    · simp only [hfit, if_false]

theorem nextLength_frame {f : Frame} (hsmall : f.encode.length < 2 ^ 31) (bytes : List UInt8) :
    nextLength (f.encode ++ bytes) = some (f.body.length : Int) := by
  have h4 := f.four_le
  rw [f.length_encode] at hsmall
  have hword : (f.encode ++ bytes).take 4 = le32 f.body.length := by
    rw [Frame.encode, List.append_assoc, List.take_left' (length_le32 _)]
  have hwrap : wrap32 (f.body.length + minHeaderLen) = f.body.length + 4 :=
    wrap32_eq (by unfold minHeaderLen; omega) (by unfold minHeaderLen; omega)
  have hhead : ¬ ((f.encode ++ bytes).length : Int) ≤ minHeaderLen := by
    rw [List.length_append, f.length_encode]
    unfold minHeaderLen
    omega
  have hfit : ¬ ((f.encode ++ bytes).length : Int) < f.body.length + 4 := by
    rw [List.length_append, f.length_encode]
    omega
  have hvalue : ofLe32 (le32 f.body.length) = f.body.length :=
    ofLe32_le32_of_range (by omega) (by omega)
  simp only [nextLength, hhead, hword, hvalue, hwrap, hfit, if_false]

theorem splitFrames_stream {fs : List Frame} {fuel : Nat}
    (hsmall : ∀ f ∈ fs, f.encode.length < 2 ^ 31) (hfuel : fs.length < fuel) :
    splitFrames fuel (stream Frame.encode fs) = some (fs.map Frame.encode, []) := by
  induction fs generalizing fuel with
  | nil =>
    obtain ⟨fuel, rfl⟩ : ∃ k, fuel = k + 1 := ⟨fuel - 1, by omega⟩
    rfl
  | cons f fs ih =>
    obtain ⟨fuel, rfl⟩ : ∃ k, fuel = k + 1 := ⟨fuel - 1, by simp at hfuel; omega⟩
    have hrest := ih (fun g hg => hsmall g (List.mem_cons_of_mem _ hg))
      (Nat.lt_of_succ_lt_succ hfuel)
    have hsize : ((f.body.length : Int) + minHeaderLen).toNat = f.encode.length := by
      rw [f.length_encode]
      rfl
    rw [stream_cons, splitFrames, nextLength_frame (hsmall f (by simp))]
    simp only [hsize, List.drop_left, List.take_left, hrest, Option.map_some, List.map_cons]

theorem nextLength_incomplete {f : Frame} {left : List UInt8} (hsmall : f.encode.length < 2 ^ 31)
    (hleft : left <+: f.encode) (hlt : left.length < f.encode.length) : nextLength left = none := by
  rw [f.length_encode] at hsmall hlt
  by_cases hhead : (left.length : Int) ≤ minHeaderLen
  · simp only [nextLength, hhead, if_true]
  · have h4 : 4 ≤ left.length := by
      unfold minHeaderLen at hhead
      omega
    have hword : left.take 4 = le32 f.body.length := by
      obtain ⟨rest, hrest⟩ := hleft
      have htake := congrArg (List.take 4) hrest
      rwa [List.take_append_of_le_length h4, Frame.encode,
        List.take_left' (length_le32 _)] at htake
    have hvalue : ofLe32 (le32 f.body.length) = f.body.length :=
      ofLe32_le32_of_range (by omega) (by omega)
    have hwrap : wrap32 (f.body.length + minHeaderLen) = f.body.length + 4 :=
      wrap32_eq (by unfold minHeaderLen; omega) (by unfold minHeaderLen; omega)
    have hfit : (left.length : Int) < f.body.length + 4 := by omega
    simp only [nextLength, hhead, hword, hvalue, hwrap, hfit, if_true, if_false]

theorem splitFrames_stream_append {fs : List Frame} {left : List UInt8} {fuel : Nat}
    (hsmall : ∀ f ∈ fs, f.encode.length < 2 ^ 31) (hleft : nextLength left = none)
    (hfuel : fs.length < fuel) :
    splitFrames fuel (stream Frame.encode fs ++ left) = some (fs.map Frame.encode, left) := by
  induction fs generalizing fuel with
  | nil =>
    obtain ⟨fuel, rfl⟩ : ∃ k, fuel = k + 1 := ⟨fuel - 1, by omega⟩
    rw [stream_nil, List.nil_append, splitFrames, hleft, List.map_nil]
  | cons f fs ih =>
    obtain ⟨fuel, rfl⟩ : ∃ k, fuel = k + 1 := ⟨fuel - 1, by simp at hfuel; omega⟩
    have hrest := ih (fun g hg => hsmall g (List.mem_cons_of_mem _ hg))
      (Nat.lt_of_succ_lt_succ hfuel)
    have hsize : ((f.body.length : Int) + minHeaderLen).toNat = f.encode.length := by
      rw [f.length_encode]
      rfl
    rw [stream_cons, List.append_assoc, splitFrames, nextLength_frame (hsmall f (by simp))]
    simp only [hsize, List.drop_left, List.take_left, hrest, Option.map_some, List.map_cons]

end DevAdapter
