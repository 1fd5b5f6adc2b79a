import Mathlib.Data.List.Perm.Basic
import Mathlib.Data.List.Range

/-!
# A heap that records its frees

Blocks are numbered in the order in which they are allocated. A heap whose live
blocks are known has freed every other block exactly once.
-/

/-- How many blocks were allocated, and which were freed, with repetitions. -/
structure Heap where
  allocated : Nat
  freed : List Nat
  deriving DecidableEq, Repr

namespace Heap

def empty : Heap := ⟨0, []⟩

def malloc (n : Nat) (h : Heap) : Heap := { h with allocated := h.allocated + n }

def free (b : Nat) (h : Heap) : Heap := { h with freed := h.freed ++ [b] }

def fresh (n : Nat) (h : Heap) : List Nat := (List.range n).map (h.allocated + ·)

@[simp] theorem allocated_malloc (n : Nat) (h : Heap) :
    (h.malloc n).allocated = h.allocated + n := rfl

@[simp] theorem allocated_free (b : Nat) (h : Heap) : (h.free b).allocated = h.allocated := rfl

theorem malloc_zero (h : Heap) : h.malloc 0 = h := rfl

theorem malloc_malloc (m n : Nat) (h : Heap) : (h.malloc m).malloc n = h.malloc (m + n) := by
  simp only [malloc, Nat.add_assoc]

@[simp] theorem length_fresh (n : Nat) (h : Heap) : (h.fresh n).length = n := by
  simp [fresh]

/-- Every block is freed exactly once, but for those of `live`, which are not freed. -/
def Live (h : Heap) (live : List Nat) : Prop := (h.freed ++ live).Perm (List.range h.allocated)

instance (h : Heap) (live : List Nat) : Decidable (h.Live live) :=
  inferInstanceAs (Decidable (List.Perm _ _))

theorem live_empty : empty.Live [] := .nil

variable {h : Heap} {live live' : List Nat}

theorem Live.malloc (hl : h.Live live) (n : Nat) : (h.malloc n).Live (live ++ h.fresh n) := by
  unfold Live
  rw [allocated_malloc, List.range_add, ← List.append_assoc]
  exact hl.append_right _

theorem Live.perm (hl : h.Live live) (hp : live.Perm live') : h.Live live' :=
  (hp.append_left _).symm.trans hl

theorem Live.free (hl : h.Live (b :: live)) : (h.free b).Live live := by
  unfold Live
  rw [allocated_free, Heap.free, List.append_assoc]
  exact hl

theorem Live.unique (hl : h.Live live) (hl' : h.Live live') : live.Perm live' :=
  (List.perm_append_left_iff _).mp (hl.trans hl'.symm)

end Heap
