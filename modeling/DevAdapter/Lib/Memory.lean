/-!
# Memory by offset

A memory gives the contents of every offset from a base address. Offsets are
integers, so that a pointer below the base still names a cell; whether an
offset lies in an allocation is a separate question. `read` and `write` move
lists of cells, and `move` is a copy with the overlap behaviour of `memmove`.
-/

namespace OffsetMemory

abbrev Mem (β : Type u) := Int → β

variable {β : Type u}

def Mem.read (m : Mem β) (off : Int) : Nat → List β
  | 0 => []
  | n + 1 => m off :: m.read (off + 1) n

def Mem.write (m : Mem β) (off : Int) (bs : List β) : Mem β := fun i =>
  if off ≤ i then (bs[(i - off).toNat]?).getD (m i) else m i

def Mem.move (m : Mem β) (dst src : Int) (n : Nat) : Mem β := m.write dst (m.read src n)

@[simp] theorem length_read (m : Mem β) (off : Int) (n : Nat) : (m.read off n).length = n := by
  induction n generalizing off with
  | zero => rfl
  | succ n ih => simp [Mem.read, ih]

@[simp] theorem read_zero (m : Mem β) (off : Int) : m.read off 0 = [] := rfl

theorem getElem?_read (m : Mem β) (off : Int) {n k : Nat} (h : k < n) :
    (m.read off n)[k]? = some (m (off + k)) := by
  induction n generalizing off k with
  | zero => omega
  | succ n ih =>
    cases k with
    | zero => simp [Mem.read]
    | succ k =>
      have hk : off + 1 + (k : Int) = off + ((k + 1 : Nat) : Int) := by omega
      rw [Mem.read, List.getElem?_cons_succ, ih (off + 1) (Nat.lt_of_succ_lt_succ h), hk]

theorem read_add (m : Mem β) (off : Int) (a b : Nat) :
    m.read off (a + b) = m.read off a ++ m.read (off + a) b := by
  induction a generalizing off with
  | zero => simp
  | succ a ih =>
    have hb : off + 1 + (a : Int) = off + ((a + 1 : Nat) : Int) := by omega
    rw [Nat.add_right_comm]
    simp only [Mem.read, List.cons_append, ih, hb]

theorem take_read (m : Mem β) (off : Int) {k n : Nat} (h : k ≤ n) :
    (m.read off n).take k = m.read off k := by
  obtain ⟨d, rfl⟩ := Nat.exists_eq_add_of_le h
  simp [read_add]

theorem drop_read (m : Mem β) (off : Int) {k n : Nat} (h : k ≤ n) :
    (m.read off n).drop k = m.read (off + k) (n - k) := by
  obtain ⟨d, rfl⟩ := Nat.exists_eq_add_of_le h
  simp [read_add]

theorem read_congr {m m' : Mem β} {off : Int} {n : Nat}
    (h : ∀ i, off ≤ i → i < off + n → m i = m' i) : m.read off n = m'.read off n := by
  induction n generalizing off with
  | zero => rfl
  | succ n ih =>
    simp only [Mem.read, h off (by omega) (by omega)]
    rw [ih fun i hi hn => h i (by omega) (by omega)]

theorem write_outside (m : Mem β) (off : Int) (bs : List β) {i : Int}
    (h : i < off ∨ off + bs.length ≤ i) : m.write off bs i = m i := by
  unfold Mem.write
  split
  · have hi : bs.length ≤ (i - off).toNat := by omega
    simp [List.getElem?_eq_none hi]
  · rfl

theorem read_write_of_disjoint (m : Mem β) (off : Int) (bs : List β) {at_ : Int} {n : Nat}
    (h : at_ + n ≤ off ∨ off + bs.length ≤ at_) : (m.write off bs).read at_ n = m.read at_ n := by
  apply read_congr
  intro i hi hn
  exact write_outside m off bs (by omega)

@[simp] theorem read_write_self (m : Mem β) (off : Int) (bs : List β) :
    (m.write off bs).read off bs.length = bs := by
  apply List.ext_getElem?
  intro k
  by_cases hk : k < bs.length
  · have ht : (off + (k : Int) - off).toNat = k := by omega
    rw [getElem?_read _ _ hk, Mem.write, if_pos (by omega), ht]
    simp [List.getElem?_eq_getElem hk]
  · rw [List.getElem?_eq_none (by simpa using hk), List.getElem?_eq_none (by simpa using hk)]

theorem write_write_append (m : Mem β) (off : Int) (bs cs : List β) :
    (m.write off bs).write (off + bs.length) cs = m.write off (bs ++ cs) := by
  funext i
  simp only [Mem.write]
  by_cases hfirst : i < off + bs.length
  · have hnot : ¬ off + bs.length ≤ i := by omega
    rw [if_neg hnot]
    by_cases hoff : off ≤ i
    · have hlt : (i - off).toNat < bs.length := by omega
      rw [if_pos hoff, if_pos hoff, List.getElem?_append_left hlt]
    · rw [if_neg hoff, if_neg hoff]
  · have hoff : off ≤ i := by omega
    have hge : bs.length ≤ (i - off).toNat := by omega
    have hsub : (i - (off + bs.length)).toNat = (i - off).toNat - bs.length := by omega
    rw [if_pos (by omega : off + bs.length ≤ i), if_pos hoff, if_pos hoff, hsub,
      List.getElem?_eq_none hge, List.getElem?_append_right hge]
    rfl

theorem read_move (m : Mem β) (dst src : Int) (n : Nat) :
    (m.move dst src n).read dst n = m.read src n := by
  have h := read_write_self m dst (m.read src n)
  rwa [length_read] at h

end OffsetMemory
