import DevAdapter.Lib.Memory
import Mathlib.Logic.Function.Basic

/-!
# C strings in a memory

A text is held at an offset when its characters stand there and a NUL behind
them. Reading stops at the first NUL, with fuel for a memory that has none; a
separator overwritten with a NUL cuts one string into two.
-/

namespace CString

open Function (update)
open OffsetMemory

def Holds (m : Mem Char) : Int → List Char → Prop
  | p, [] => m p = '\x00'
  | p, c :: text => m p = c ∧ c ≠ '\x00' ∧ Holds m (p + 1) text

def cstring : Nat → Mem Char → Int → Option (List Char)
  | 0, _, _ => none
  | fuel + 1, m, p =>
    if m p = '\x00' then some [] else (cstring fuel m (p + 1)).map (m p :: ·)

variable {m : Mem Char} {p : Int}

theorem succ_add_length (p : Int) (c : Char) (text : List Char) :
    p + 1 + (text.length : Int) = p + ((c :: text).length : Int) := by
  rw [List.length_cons]
  omega

theorem cstring_eq {text : List Char} (h : Holds m p text) (hf : text.length < fuel) :
    cstring fuel m p = some text := by
  induction text generalizing p fuel with
  | nil =>
    cases fuel with
    | zero => cases hf
    | succ fuel => exact if_pos h
  | cons c text ih =>
    cases fuel with
    | zero => cases hf
    | succ fuel =>
      obtain ⟨hc, hnul, hrest⟩ := h
      rw [cstring, hc, if_neg hnul, ih hrest (Nat.lt_of_succ_lt_succ hf)]
      rfl

theorem holds_of_read {text : List Char} (hread : m.read p (text.length + 1) = text ++ ['\x00'])
    (hnul : '\x00' ∉ text) : Holds m p text := by
  induction text generalizing p with
  | nil => exact (List.cons.inj hread).1
  | cons c text ih =>
    obtain ⟨hc, hrest⟩ := List.cons.inj hread
    refine ⟨hc, (List.ne_of_not_mem_cons hnul).symm, ih hrest ?_⟩
    exact List.not_mem_of_not_mem_cons hnul

theorem Holds.write {text : List Char} (m : Mem Char) (p : Int) (hnul : '\x00' ∉ text) :
    Holds (m.write p (text ++ ['\x00'])) p text := by
  refine holds_of_read ?_ hnul
  have hread := read_write_self m p (text ++ ['\x00'])
  rwa [List.length_append] at hread

theorem Holds.unique {a b : List Char} (ha : Holds m p a) (hb : Holds m p b) : a = b := by
  have hfuel := cstring_eq ha (Nat.lt_succ_of_le (Nat.le_max_left a.length b.length))
  rw [cstring_eq hb (Nat.lt_succ_of_le (Nat.le_max_right a.length b.length))] at hfuel
  exact (Option.some.inj hfuel).symm

theorem Holds.drop {a b : List Char} (h : Holds m p (a ++ b)) : Holds m (p + a.length) b := by
  induction a generalizing p with
  | nil => simpa using h
  | cons c a ih =>
    have hrest := ih h.2.2
    rwa [succ_add_length p c] at hrest

theorem Holds.update_below {text : List Char} (h : Holds m p text) (hq : q < p) (c : Char) :
    Holds (update m q c) p text := by
  induction text generalizing p with
  | nil => exact (Function.update_of_ne (Int.ne_of_gt hq) ..).trans h
  | cons d text ih =>
    obtain ⟨hd, hnul, hrest⟩ := h
    exact ⟨(Function.update_of_ne (Int.ne_of_gt hq) ..).trans hd, hnul, ih hrest (by omega)⟩

theorem Holds.cut {a b : List Char} (h : Holds m p (a ++ c :: b)) :
    Holds (update m (p + a.length) '\x00') p a := by
  induction a generalizing p with
  | nil => simp [Holds]
  | cons d a ih =>
    obtain ⟨hd, hnul, hrest⟩ := h
    have hcut := ih hrest
    rw [succ_add_length p d] at hcut
    have hne : p ≠ p + ((d :: a).length : Int) := by
      rw [List.length_cons]
      omega
    exact ⟨(Function.update_of_ne hne ..).trans hd, hnul, hcut⟩

/-- Writes from the NUL of a string on leave it when they write a NUL. -/
theorem Holds.update_nul {text : List Char} (h : Holds m p text) (hq : p + text.length ≤ q) :
    Holds (update m q '\x00') p text := by
  induction text generalizing p with
  | nil =>
    by_cases hpq : p = q
    · subst hpq
      exact Function.update_self ..
    · exact (Function.update_of_ne hpq ..).trans h
  | cons d text ih =>
    obtain ⟨hd, hnul, hrest⟩ := h
    rw [← succ_add_length p d] at hq
    exact ⟨(Function.update_of_ne (by omega) ..).trans hd, hnul, ih hrest hq⟩

end CString
