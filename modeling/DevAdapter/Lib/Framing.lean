import Mathlib.Algebra.Ring.Nat

/-!
# Streams of frames

A stream is the concatenation of the encodings of its frames. After the first
`n` elements, `whole` are the frames that lie in them entirely, `rest` the
frames that do not, and `tail` the elements of the first `rest` frame that have
already come. `whole_add`, `rest_add` and `tail_add` say that these three can
be computed piece by piece, with the tail as the only state between pieces.
-/

namespace Framing

variable {α : Type u} {β : Type v} (encode : α → List β)

def stream (fs : List α) : List β := fs.flatMap encode

def whole : List α → Nat → List α
  | [], _ => []
  | f :: fs, n => if (encode f).length ≤ n then f :: whole fs (n - (encode f).length) else []

def rest : List α → Nat → List α
  | [], _ => []
  | f :: fs, n => if (encode f).length ≤ n then rest fs (n - (encode f).length) else f :: fs

def tail : List α → Nat → List β
  | [], _ => []
  | f :: fs, n =>
    if (encode f).length ≤ n then tail fs (n - (encode f).length)
    else (stream encode (f :: fs)).take n

@[simp] theorem stream_nil : stream encode [] = [] := rfl

@[simp] theorem stream_cons (f : α) (fs : List α) :
    stream encode (f :: fs) = encode f ++ stream encode fs := by
  simp [stream]

theorem stream_append (fs gs : List α) :
    stream encode (fs ++ gs) = stream encode fs ++ stream encode gs := by
  simp [stream]

theorem whole_append_rest (fs : List α) (n : Nat) : whole encode fs n ++ rest encode fs n = fs := by
  induction fs generalizing n with
  | nil => rfl
  | cons f fs ih =>
    by_cases h : (encode f).length ≤ n
    · simp [whole, rest, h, ih]
    · simp [whole, rest, h]

theorem stream_whole_append_tail (fs : List α) (n : Nat) :
    stream encode (whole encode fs n) ++ tail encode fs n = (stream encode fs).take n := by
  induction fs generalizing n with
  | nil => simp [whole, tail]
  | cons f fs ih =>
    by_cases h : (encode f).length ≤ n
    · simp [whole, tail, h, List.take_append, List.take_of_length_le h, ih]
    · simp [whole, tail, h]

theorem length_tail_of_incomplete {f : α} {fs : List α} {n : Nat} (h : ¬ (encode f).length ≤ n) :
    (tail encode (f :: fs) n).length = n := by
  simp only [tail, h, if_false, List.length_take, stream_cons, List.length_append]
  omega

theorem whole_add (fs : List α) (n m : Nat) :
    whole encode fs (n + m) = whole encode fs n ++
      whole encode (rest encode fs n) ((tail encode fs n).length + m) := by
  induction fs generalizing n with
  | nil => rfl
  | cons f fs ih =>
    by_cases h : (encode f).length ≤ n
    · have hm : (encode f).length ≤ n + m := Nat.le_add_right_of_le h
      have hs := Nat.sub_add_comm (m := m) h
      simp only [whole, rest, tail, h, hm, if_true, hs, ih, List.cons_append]
    · rw [length_tail_of_incomplete encode h]
      simp [whole, rest, h]

theorem rest_add (fs : List α) (n m : Nat) :
    rest encode fs (n + m) = rest encode (rest encode fs n) ((tail encode fs n).length + m) := by
  induction fs generalizing n with
  | nil => rfl
  | cons f fs ih =>
    by_cases h : (encode f).length ≤ n
    · have hm : (encode f).length ≤ n + m := Nat.le_add_right_of_le h
      have hs := Nat.sub_add_comm (m := m) h
      simp only [rest, tail, h, hm, if_true, hs, ih]
    · rw [length_tail_of_incomplete encode h]
      simp [rest, h]

theorem tail_add (fs : List α) (n m : Nat) :
    tail encode fs (n + m) = tail encode (rest encode fs n) ((tail encode fs n).length + m) := by
  induction fs generalizing n with
  | nil => rfl
  | cons f fs ih =>
    by_cases h : (encode f).length ≤ n
    · have hm : (encode f).length ≤ n + m := Nat.le_add_right_of_le h
      have hs := Nat.sub_add_comm (m := m) h
      simp only [tail, rest, h, hm, if_true, hs, ih]
    · rw [length_tail_of_incomplete encode h]
      simp [rest, h]

theorem prefix_flatten_cons {s c : List β} {cs : List (List β)} {n : Nat}
    (h : (c :: cs).flatten <+: s.drop n) :
    s.take (n + c.length) = s.take n ++ c ∧ cs.flatten <+: s.drop (n + c.length) := by
  obtain ⟨after, hafter⟩ := h
  rw [List.flatten_cons, List.append_assoc] at hafter
  constructor
  · rw [List.take_add, ← hafter, List.take_left]
  · rw [← List.drop_drop, ← hafter, List.drop_left]
    exact List.prefix_append _ _

theorem whole_rest_tail (fs : List α) (n : Nat) :
    whole encode (rest encode fs n) (tail encode fs n).length = [] := by
  have h := whole_add encode fs n 0
  exact List.self_eq_append_right.mp h

theorem whole_all (fs : List α) : whole encode fs (stream encode fs).length = fs := by
  induction fs with
  | nil => rfl
  | cons f fs ih => simp [whole, ih]

theorem rest_all (fs : List α) : rest encode fs (stream encode fs).length = [] := by
  have h := whole_append_rest encode fs (stream encode fs).length
  rw [whole_all] at h
  exact List.append_right_eq_self.mp h

theorem length_encode_le_of_mem_whole {fs : List α} {n : Nat} {f : α}
    (h : f ∈ whole encode fs n) : (encode f).length ≤ n := by
  induction fs generalizing n with
  | nil => simp [whole] at h
  | cons g fs ih =>
    by_cases hg : (encode g).length ≤ n
    · simp only [whole, hg, if_true, List.mem_cons] at h
      rcases h with rfl | h
      · exact hg
      · have := ih h
        omega
    · simp [whole, hg] at h

/-- What has come of the frames that are not whole, once a piece `c` follows. -/
theorem tail_append {fs : List α} {n : Nat} {c : List β}
    (hc : (stream encode fs).take (n + c.length) = (stream encode fs).take n ++ c) :
    tail encode fs n ++ c =
      (stream encode (rest encode fs n)).take ((tail encode fs n).length + c.length) := by
  have hcome := stream_whole_append_tail encode fs n
  have hsplit : stream encode fs =
      stream encode (whole encode fs n) ++ stream encode (rest encode fs n) := by
    rw [← stream_append, whole_append_rest]
  have hle : (stream encode (whole encode fs n)).length ≤ n + c.length := by
    have hlen := congrArg List.length hcome
    rw [List.length_append, List.length_take] at hlen
    omega
  rw [← hcome, hsplit, List.take_append, List.take_of_length_le hle, List.append_assoc] at hc
  have hrest := List.append_cancel_left hc
  have hlen := congrArg List.length hrest
  rw [List.length_take, List.length_append] at hlen
  rw [← hrest, List.take_eq_take_iff]
  omega

/-- When a stream is cut into pieces of at most `C` elements and no tail is
longer than `T`, no frame is longer than `T + C`. -/
theorem length_encode_le_of_cuts {fs : List α} {T C : Nat} (n : Nat) (sizes : List Nat)
    (hsum : n + sizes.sum = (stream encode fs).length) (hC : ∀ c ∈ sizes, c ≤ C)
    (hT : ∀ k ≤ sizes.length, (tail encode fs (n + (sizes.take k).sum)).length ≤ T)
    {f : α} (hf : f ∈ rest encode fs n) : (encode f).length ≤ T + C := by
  induction sizes generalizing n with
  | nil =>
    simp only [List.sum_nil, Nat.add_zero] at hsum
    rw [hsum, rest_all] at hf
    simp at hf
  | cons c cs ih =>
    rw [← whole_append_rest encode (rest encode fs n) ((tail encode fs n).length + c),
      List.mem_append, ← rest_add] at hf
    rcases hf with hf | hf
    · have hle := length_encode_le_of_mem_whole encode hf
      have ht := hT 0 (Nat.zero_le _)
      have hc := hC c (by simp)
      simp only [List.take_zero, List.sum_nil, Nat.add_zero] at ht
      omega
    · refine ih (n + c) ?_ (fun x hx => hC x (by simp [hx])) ?_ hf
      · simpa [Nat.add_assoc] using hsum
      · intro k hk
        have := hT (k + 1) (by simpa using hk)
        simpa [Nat.add_assoc] using this

end Framing
