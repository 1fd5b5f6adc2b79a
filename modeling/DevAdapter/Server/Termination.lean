import DevAdapter.Server.LengthRule

/-!
# When the loop of `receive` ends

A pass that does not leave the loop takes `messageLength + MinHeaderLen` off
`totalByte`, and `messageLength` is whatever the client sent. The loop makes
progress as long as that sum is positive and no `int` overflows, so the length
words from -3 to 2^31 - 5 are the ones it copes with.
-/

namespace DevAdapter

open OffsetMemory Word32

/-- The locals at the start of the passes of a loop entered with `start`. -/
inductive Passes (m : Mem UInt8) (start : Loop) : Loop → Prop
  | start : Passes m start start
  | next {l next messageLength} (h : Passes m start l)
      (hdispatch : iterate m l = .dispatch messageLength next) (hmore : next.totalByte ≠ 0) :
    Passes m start next

/-- Each pass that does not leave the loop decreases `totalByte`, which stays non-negative. -/
def Progresses (m : Mem UInt8) (start : Loop) : Prop :=
  ∀ l next messageLength, Passes m start l → iterate m l = .dispatch messageLength next →
    next.totalByte ≠ 0 → 0 ≤ next.totalByte ∧ next.totalByte < l.totalByte

def Steppable (messageLength : Int) : Prop := -3 ≤ messageLength ∧ messageLength ≤ 2 ^ 31 - 5

/-- `bytes` is cut by its length words, as far as `receive` takes the messages as
whole, and it can step over all of these. -/
inductive Regular : List UInt8 → Prop
  | short {bytes} (h : nextLength bytes = none) : Regular bytes
  | message {bytes messageLength} (h : nextLength bytes = some messageLength)
      (hword : Steppable messageLength)
      (hrest : Regular (bytes.drop (messageLength + minHeaderLen).toNat)) : Regular bytes

-- ---------------------------------------------------------------------------
-- One pass
-- ---------------------------------------------------------------------------

theorem iterate_nonpos {m : Mem UInt8} {l : Loop} (h : l.totalByte ≤ 0) : iterate m l = .save := by
  have hhead : l.totalByte ≤ minHeaderLen := by unfold minHeaderLen; omega
  rw [iterate, if_pos hhead]

theorem nextLength_some {bytes : List UInt8} (h : nextLength bytes = some messageLength) :
    4 < bytes.length ∧ ¬ (bytes.length : Int) < wrap32 (messageLength + minHeaderLen) ∧
      messageLength = ofLe32 (bytes.take 4) := by
  simp only [nextLength] at h
  split at h
  · cases h
  · rename_i hhead
    split at h
    · cases h
    · rename_i hfit
      obtain rfl := Option.some.inj h
      unfold minHeaderLen at hhead
      exact ⟨by omega, hfit, rfl⟩

theorem steppable_iff {n messageLength : Int} (hn : 4 < n) (hsmall : n < 2 ^ 31)
    (hlow : -2 ^ 31 ≤ messageLength) (hhigh : messageLength < 2 ^ 31)
    (hfit : ¬ n < wrap32 (messageLength + minHeaderLen)) :
    (0 ≤ wrap32 (wrap32 (n - messageLength) - minHeaderLen) ∧
      wrap32 (wrap32 (n - messageLength) - minHeaderLen) < n) ↔ Steppable messageLength := by
  obtain ⟨j, hj⟩ := wrap32_eq_sub (messageLength + 4)
  obtain ⟨k, hk⟩ := wrap32_eq_sub (n - messageLength - 4)
  have hsum := wrap32_range (messageLength + 4)
  have hleft := wrap32_range (n - messageLength - 4)
  unfold minHeaderLen Steppable at *
  rw [wrap32_wrap32_sub]
  rw [hj] at hfit hsum
  rw [hk] at hleft ⊢
  omega

theorem left_eq {n messageLength : Int} (hn : 4 < n) (hsmall : n < 2 ^ 31)
    (hword : Steppable messageLength) (hfit : ¬ n < wrap32 (messageLength + minHeaderLen)) :
    wrap32 (wrap32 (n - messageLength) - minHeaderLen) = n - messageLength - 4 ∧
      messageLength + 4 ≤ n := by
  obtain ⟨hlow, hhigh⟩ := hword
  unfold minHeaderLen at *
  rw [wrap32_eq (by omega) (by omega)] at hfit
  rw [wrap32_wrap32_sub, wrap32_eq (by omega) (by omega)]
  omega

theorem iterate_steppable {m : Mem UInt8} {p : Int} {n : Nat} (hsmall : n < 2 ^ 31)
    (h : nextLength (m.read p n) = some messageLength) (hword : Steppable messageLength) :
    ∃ k : Nat, 0 < k ∧ k ≤ n ∧ messageLength + minHeaderLen = k ∧
      iterate m ⟨p, n⟩ = .dispatch messageLength ⟨p + k, (n - k : Nat)⟩ ∧
      (m.read p n).drop (messageLength + minHeaderLen).toNat = m.read (p + k) (n - k) := by
  obtain ⟨hlen, hfit, -⟩ := nextLength_some h
  rw [length_read] at hlen hfit
  obtain ⟨hleft, hle⟩ := left_eq (by omega) (by omega) hword hfit
  obtain ⟨k, hk⟩ : ∃ k : Nat, messageLength + minHeaderLen = k :=
    ⟨(messageLength + 4).toNat, by unfold minHeaderLen; have := hword.1; omega⟩
  have hkn : 0 < k ∧ k ≤ n := by
    have := hword.1
    unfold minHeaderLen at hk
    omega
  refine ⟨k, hkn.1, hkn.2, hk, ?_, ?_⟩
  · have htotal : (n : Int) - messageLength - 4 = ((n - k : Nat) : Int) := by
      unfold minHeaderLen at hk
      omega
    rw [iterate_eq, h]
    simp only [hleft, htotal, Int.add_assoc, hk]
  · rw [hk, Int.toNat_natCast, drop_read m p hkn.2]

-- ---------------------------------------------------------------------------
-- All passes
-- ---------------------------------------------------------------------------

theorem Passes.eq_start {m : Mem UInt8} {start l : Loop} (hsave : iterate m start = .save)
    (hl : Passes m start l) : l = start := by
  induction hl with
  | start => rfl
  | next _ hdispatch _ ih =>
    subst ih
    rw [hsave] at hdispatch
    cases hdispatch

theorem Regular.passes {m : Mem UInt8} {p : Int} {n : Nat} (hsmall : n < 2 ^ 31)
    (h : Regular (m.read p n)) (hl : Passes m ⟨p, n⟩ l) :
    ∃ k : Nat, k ≤ n ∧ l = ⟨p + k, (n - k : Nat)⟩ ∧ Regular (m.read (p + k) (n - k)) := by
  induction hl with
  | start => exact ⟨0, Nat.zero_le _, by simp, by simpa using h⟩
  | next _ hdispatch _ ih =>
    obtain ⟨k, hk, rfl, hregular⟩ := ih
    cases hregular with
    | short hnone =>
      rw [iterate_eq, hnone] at hdispatch
      cases hdispatch
    | message hsome hword hrest =>
      obtain ⟨j, -, hj, -, hpass, hdrop⟩ := iterate_steppable (by omega) hsome hword
      rw [hpass] at hdispatch
      cases hdispatch
      rw [hdrop] at hrest
      have hat : p + k + j = p + ((k + j : Nat) : Int) := by omega
      rw [hat, Nat.sub_sub] at hrest
      exact ⟨k + j, by omega, by rw [hat, Nat.sub_sub], hrest⟩

theorem Regular.progresses {m : Mem UInt8} {p : Int} {n : Nat} (hsmall : n < 2 ^ 31)
    (h : Regular (m.read p n)) : Progresses m ⟨p, n⟩ := by
  intro l next messageLength hl hdispatch _
  obtain ⟨k, hk, rfl, hregular⟩ := h.passes hsmall hl
  cases hregular with
  | short hnone =>
    rw [iterate_eq, hnone] at hdispatch
    cases hdispatch
  | message hsome hword _ =>
    obtain ⟨j, hpos, hj, -, hpass, -⟩ := iterate_steppable (by omega) hsome hword
    rw [hpass] at hdispatch
    cases hdispatch
    simp only
    omega

theorem Progresses.next {m : Mem UInt8} {next : Loop} (h : Progresses m start)
    (hdispatch : iterate m start = .dispatch messageLength next) (hmore : next.totalByte ≠ 0) :
    Progresses m next := by
  have hpasses : ∀ l, Passes m next l → Passes m start l := by
    intro l hl
    induction hl with
    | start => exact .next .start hdispatch hmore
    | next _ hd hm ih => exact .next ih hd hm
  exact fun l next' messageLength' hl => h l next' messageLength' (hpasses l hl)

/-- A loop that makes progress runs over regular bytes. The induction is on their number. -/
theorem Progresses.regular {m : Mem UInt8} {p : Int} {n : Nat} (hsmall : n < 2 ^ 31)
    (h : Progresses m ⟨p, n⟩) : Regular (m.read p n) := by
  induction n using Nat.strong_induction_on generalizing p with
  | _ n ih =>
    cases hnext : nextLength (m.read p n) with
    | none => exact .short hnext
    | some messageLength =>
      obtain ⟨hlen, hfit, hvalue⟩ := nextLength_some hnext
      rw [length_read] at hlen hfit
      have hrange := wrap32_range (natOfLe ((m.read p n).take 4))
      have hword : Steppable messageLength := by
        refine (steppable_iff (n := n) (by omega) (by omega) ?_ ?_ hfit).mp ?_
        · rw [hvalue]
          exact hrange.1
        · rw [hvalue]
          exact hrange.2
        · by_cases hmore : wrap32 (wrap32 (n - messageLength) - minHeaderLen) = 0
          · rw [hmore]
            omega
          · exact h ⟨p, n⟩ _ messageLength .start (by rw [iterate_eq, hnext]) hmore
      obtain ⟨k, hpos, hk, -, hpass, hdrop⟩ := iterate_steppable hsmall hnext hword
      refine .message hnext hword ?_
      rw [hdrop]
      by_cases hall : n - k = 0
      · rw [hall]
        exact .short rfl
      · exact ih (n - k) (by omega) (by omega) (h.next hpass (by simpa using hall))

theorem Regular.receiveLoop_some {b : ReceiveBuf} {p : Int} {n fuel : Nat} (hsmall : n < 2 ^ 31)
    (hfuel : n < fuel) (h : Regular (b.recvbuf.read p n)) :
    ∃ result, receiveLoop fuel b ⟨p, n⟩ = some result := by
  induction fuel generalizing p n with
  | zero => omega
  | succ fuel ih =>
    cases h with
    | short hnone => exact ⟨_, by rw [receiveLoop, iterate_eq, hnone]⟩
    | message hsome hword hrest =>
      obtain ⟨k, hpos, hk, -, hpass, hdrop⟩ := iterate_steppable hsmall hsome hword
      rw [hdrop] at hrest
      obtain ⟨result, hresult⟩ := ih (by omega) (by omega) hrest
      rw [receiveLoop, hpass]
      simp only [hresult, Option.map_some]
      split <;> exact ⟨_, rfl⟩

-- ---------------------------------------------------------------------------
-- A call of `receive`
-- ---------------------------------------------------------------------------

/-- A call returns, and each pass of its loop that does not leave makes progress. -/
def Terminates (b : ReceiveBuf) (chunk : List UInt8) : Prop :=
  (∃ fuel result, receive fuel b chunk = some result) ∧
    (chunk ≠ [] → Progresses (b.recv chunk).recvbuf (b.enter chunk))

/-- The bytes the loop is entered with: those carried over, and the chunk. -/
def ReceiveBuf.waiting (b : ReceiveBuf) (chunk : List UInt8) : List UInt8 :=
  (b.recv chunk).recvbuf.read (headroom - b.gMoreData) (b.enter chunk).totalByte.toNat

theorem ReceiveBuf.enter_eq {b : ReceiveBuf} {chunk : List UInt8}
    (h : 0 ≤ (b.enter chunk).totalByte) :
    b.enter chunk = ⟨headroom - b.gMoreData, ((b.enter chunk).totalByte.toNat : Nat)⟩ := by
  rw [Int.toNat_of_nonneg h]
  rfl

theorem ReceiveBuf.enter_lt (b : ReceiveBuf) (chunk : List UInt8) :
    (b.enter chunk).totalByte.toNat < 2 ^ 31 := by
  have := wrap32_range (chunk.length + b.gMoreData)
  simp only [ReceiveBuf.enter]
  omega

theorem ReceiveBuf.progresses_iff (b : ReceiveBuf) (chunk : List UInt8) :
    Progresses (b.recv chunk).recvbuf (b.enter chunk) ↔ Regular (b.waiting chunk) := by
  by_cases hpos : 0 ≤ (b.enter chunk).totalByte
  · rw [b.enter_eq hpos]
    exact ⟨Progresses.regular (b.enter_lt chunk), Regular.progresses (b.enter_lt chunk)⟩
  · have hsave := iterate_nonpos (m := (b.recv chunk).recvbuf) (l := b.enter chunk) (by omega)
    have hnone : (b.enter chunk).totalByte.toNat = 0 := by omega
    rw [ReceiveBuf.waiting, hnone]
    refine ⟨fun _ => .short rfl, fun _ l next messageLength hl hdispatch _ => ?_⟩
    rw [hl.eq_start hsave, hsave] at hdispatch
    cases hdispatch

theorem ReceiveBuf.receiveLoop_some {b : ReceiveBuf} {chunk : List UInt8}
    (h : Regular (b.waiting chunk)) :
    ∃ fuel result, receiveLoop fuel (b.recv chunk) (b.enter chunk) = some result := by
  by_cases hpos : 0 ≤ (b.enter chunk).totalByte
  · rw [b.enter_eq hpos]
    exact ⟨_, Regular.receiveLoop_some (b.enter_lt chunk) (Nat.lt_succ_self _) h⟩
  · exact ⟨1, _, by rw [receiveLoop, iterate_nonpos (by omega)]⟩

/-- `receive` terminates, with progress in every pass, exactly when it can step
over the length words that it meets. -/
theorem receive_terminates_iff (b : ReceiveBuf) (chunk : List UInt8) :
    Terminates b chunk ↔ (chunk ≠ [] → Regular (b.waiting chunk)) := by
  constructor
  · rintro ⟨-, hprogress⟩ hne
    exact (b.progresses_iff chunk).mp (hprogress hne)
  · intro hregular
    refine ⟨?_, fun hne => (b.progresses_iff chunk).mpr (hregular hne)⟩
    by_cases hne : chunk = []
    · exact ⟨0, _, by rw [receive, if_pos hne]⟩
    · obtain ⟨fuel, result, hloop⟩ := ReceiveBuf.receiveLoop_some (hregular hne)
      exact ⟨fuel, result, by rw [receive, if_neg hne, hloop]⟩

def lengthMinusFour : List UInt8 := [252, 255, 255, 255, 0]

/-- The loop stays where it is: nothing is taken off `totalByte`. -/
theorem lengthMinusFour_stays (fuel : Nat) :
    receiveLoop fuel (ReceiveBuf.recv ⟨0, fun _ => 0⟩ lengthMinusFour) ⟨2000, 5⟩ = none := by
  induction fuel with
  | zero => rfl
  | succ fuel ih =>
    have hpass : iterate (ReceiveBuf.recv ⟨0, fun _ => 0⟩ lengthMinusFour).recvbuf ⟨2000, 5⟩ =
        .dispatch (-4) ⟨2000, 5⟩ := by
      have hword : nextLength ((ReceiveBuf.recv ⟨0, fun _ => 0⟩ lengthMinusFour).recvbuf.read
          2000 5) = some (-4) := by decide +kernel
      have hpass := iterate_eq (ReceiveBuf.recv ⟨0, fun _ => 0⟩ lengthMinusFour).recvbuf 2000 5
      rw [hword] at hpass
      exact hpass
    rw [receiveLoop, hpass]
    simp [ih]

theorem lengthMinusFour_endless : ¬ ∀ b chunk, Terminates b chunk := by
  intro h
  obtain ⟨⟨fuel, result, hreturns⟩, -⟩ := h ⟨0, fun _ => 0⟩ lengthMinusFour
  have hloop : receive fuel ⟨0, fun _ => 0⟩ lengthMinusFour = none :=
    lengthMinusFour_stays fuel
  rw [hloop] at hreturns
  cases hreturns

end DevAdapter
