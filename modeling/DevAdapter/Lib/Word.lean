import Mathlib.Algebra.Ring.Int.Defs
import Mathlib.Algebra.Ring.Nat

/-!
# Signed 32-bit words

`wrap32` is the value an `int` keeps of an unbounded result. `le32` and
`ofLe32` are the little-endian bytes of a word and the word of such bytes.
-/

namespace Word32

def wrap32 (x : Int) : Int := x.bmod (2 ^ 32)

theorem wrap32_range (x : Int) : -2 ^ 31 ≤ wrap32 x ∧ wrap32 x < 2 ^ 31 := by
  have hlow : -(2 ^ 32 / 2 : Int) ≤ x.bmod (2 ^ 32) := Int.le_bmod (by decide)
  have hhigh : x.bmod (2 ^ 32) < ((2 ^ 32 + 1) / 2 : Int) := Int.bmod_lt (by decide)
  unfold wrap32
  omega

theorem wrap32_eq_sub (x : Int) : ∃ k : Int, wrap32 x = x - 2 ^ 32 * k := by
  have hmod : wrap32 x % 2 ^ 32 = x % 2 ^ 32 := Int.bmod_emod
  exact ⟨x / 2 ^ 32 - wrap32 x / 2 ^ 32, by omega⟩

theorem wrap32_wrap32_sub (x y : Int) : wrap32 (wrap32 x - y) = wrap32 (x - y) := by
  simp [wrap32]

def leBytes : Nat → Nat → List UInt8
  | 0, _ => []
  | k + 1, n => UInt8.ofNat n :: leBytes k (n / 256)

def natOfLe : List UInt8 → Nat
  | [] => 0
  | b :: bs => b.toNat + 256 * natOfLe bs

def le32 (x : Int) : List UInt8 := leBytes 4 (x % 2 ^ 32).toNat

def ofLe32 (bs : List UInt8) : Int := wrap32 (natOfLe bs)

theorem wrap32_eq {x : Int} (h : -2 ^ 31 ≤ x) (h' : x < 2 ^ 31) : wrap32 x = x := by
  unfold wrap32
  apply Int.bmod_eq_of_le <;> omega

@[simp] theorem length_leBytes (k n : Nat) : (leBytes k n).length = k := by
  induction k generalizing n with
  | zero => rfl
  | succ k ih => simp [leBytes, ih]

@[simp] theorem length_le32 (x : Int) : (le32 x).length = 4 := length_leBytes 4 _

theorem natOfLe_leBytes (k n : Nat) : natOfLe (leBytes k n) = n % 256 ^ k := by
  induction k generalizing n with
  | zero => simp [leBytes, natOfLe, Nat.mod_one]
  | succ k ih =>
    have hb : (UInt8.ofNat n).toNat = n % 256 := by simp
    simp only [leBytes, natOfLe, ih, hb]
    rw [Nat.pow_succ, Nat.mul_comm (256 ^ k) 256, Nat.mod_mul]

theorem ofLe32_le32 (x : Int) : ofLe32 (le32 x) = wrap32 x := by
  have hlt : (x % 2 ^ 32).toNat % 256 ^ 4 = (x % 2 ^ 32).toNat := by omega
  have hcast : (((x % 2 ^ 32).toNat : Nat) : Int) = x % 2 ^ 32 := by omega
  unfold ofLe32 le32
  rw [natOfLe_leBytes, hlt, hcast]
  exact Int.emod_bmod x (2 ^ 32)

theorem ofLe32_le32_of_range {x : Int} (h : -2 ^ 31 ≤ x) (h' : x < 2 ^ 31) :
    ofLe32 (le32 x) = x := by
  rw [ofLe32_le32, wrap32_eq h h']

theorem leBytes_natOfLe (bs : List UInt8) : leBytes bs.length (natOfLe bs) = bs := by
  induction bs with
  | nil => rfl
  | cons b bs ih =>
    have hb : UInt8.ofNat (b.toNat + 256 * natOfLe bs) = b := by
      apply UInt8.toNat_inj.mp
      have hlt := b.toNat_lt
      simp only [UInt8.toNat_ofNat']
      omega
    have hrest : (b.toNat + 256 * natOfLe bs) / 256 = natOfLe bs := by
      have hlt := b.toNat_lt
      omega
    simp only [List.length_cons, leBytes, natOfLe, hb, hrest, ih]

theorem natOfLe_lt (bs : List UInt8) : natOfLe bs < 256 ^ bs.length := by
  rw [← leBytes_natOfLe bs, natOfLe_leBytes, length_leBytes]
  exact Nat.mod_lt _ (Nat.pow_pos (by omega))

theorem le32_ofLe32 {bs : List UInt8} (h : bs.length = 4) : le32 (ofLe32 bs) = bs := by
  have hlt := natOfLe_lt bs
  rw [h] at hlt
  have hword : (wrap32 (natOfLe bs) % 2 ^ 32).toNat = natOfLe bs := by
    have hmod : wrap32 (natOfLe bs) % 2 ^ 32 = natOfLe bs % 2 ^ 32 := Int.bmod_emod
    omega
  have hbytes := leBytes_natOfLe bs
  rw [h] at hbytes
  rw [le32, ofLe32, hword, hbytes]

theorem ofLe32_le32_ofLe32 (bs : List UInt8) : ofLe32 (le32 (ofLe32 bs)) = ofLe32 bs := by
  rw [ofLe32_le32, ofLe32, wrap32, wrap32, Int.bmod_bmod]

end Word32
