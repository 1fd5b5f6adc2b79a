import DevAdapter.Lib.Heap

/-!
# Allocations that may fail

A heap with the number of the calls of its allocator, each of which may fail.
`Turns` is the rule for code that frees and allocates: of the blocks `pre` it
leaves those of `post`, and what else is live it does not touch.
-/

structure Store where
  heap : Heap
  calls : Nat
  deriving DecidableEq, Repr

namespace Store

/-- Whether call `n` succeeds is `granted n`. -/
def allocate (granted : Nat → Bool) (st : Store) : Option Nat × Store :=
  if granted st.calls then (some st.heap.allocated, ⟨st.heap.malloc 1, st.calls + 1⟩)
  else (none, { st with calls := st.calls + 1 })

def deallocate (b : Nat) (st : Store) : Store := { st with heap := st.heap.free b }

/-- Another block in the place of `b`, which stays when the call fails. -/
def reallocate (granted : Nat → Bool) (b : Nat) (st : Store) : Option Nat × Store :=
  match st.allocate granted with
  | (none, st) => (none, st)
  | (some new, st) => (some new, st.deallocate b)

variable {granted : Nat → Bool} {st st' st'' : Store} {pre mid post rest : List Nat}

def Denied (granted : Nat → Bool) (st st' : Store) : Prop :=
  ∃ n, st.calls ≤ n ∧ n < st'.calls ∧ granted n = false

structure Turns (pre post : List Nat) (st st' : Store) : Prop where
  calls : st.calls ≤ st'.calls
  live : ∀ live, st.heap.Live (pre ++ live) → st'.heap.Live (post ++ live)

theorem Turns.refl (pre : List Nat) (st : Store) : Turns pre pre st st :=
  ⟨Nat.le_refl _, fun _ => id⟩

theorem Turns.trans (h : Turns pre mid st st') (h' : Turns mid post st' st'') :
    Turns pre post st st'' :=
  ⟨h.calls.trans h'.calls, fun live hl => h'.live live (h.live live hl)⟩

theorem Turns.perm (h : Turns pre mid st st') (hp : mid.Perm post) : Turns pre post st st' :=
  ⟨h.calls, fun live hl => (h.live live hl).perm (hp.append_right live)⟩

theorem Turns.frame (h : Turns pre post st st') (rest : List Nat) :
    Turns (pre ++ rest) (post ++ rest) st st' := by
  refine ⟨h.calls, fun live hl => ?_⟩
  rw [List.append_assoc] at hl ⊢
  exact h.live _ hl

theorem Turns.frame_left (h : Turns pre post st st') (rest : List Nat) :
    Turns (rest ++ pre) (rest ++ post) st st' := by
  have hp : ∀ bs : List Nat, (rest ++ bs).Perm (bs ++ rest) := fun _ => List.perm_append_comm
  refine ⟨h.calls, fun live hl => ?_⟩
  exact ((h.frame rest).live live (hl.perm ((hp pre).append_right live))).perm
    ((hp post).symm.append_right live)

theorem Denied.later (h : Denied granted st st') (hle : st'.calls ≤ st''.calls) :
    Denied granted st st'' := by
  obtain ⟨n, hn, hlt, hfail⟩ := h
  exact ⟨n, hn, Nat.lt_of_lt_of_le hlt hle, hfail⟩

theorem Denied.earlier (h : Denied granted st' st'') (hle : st.calls ≤ st'.calls) :
    Denied granted st st'' := by
  obtain ⟨n, hn, hrest⟩ := h
  exact ⟨n, hle.trans hn, hrest⟩

inductive Allocation (granted : Nat → Bool) (st : Store) : Option Nat × Store → Prop
  | given {b : Nat} {st' : Store} (h : Turns [] [b] st st') : Allocation granted st (some b, st')
  | denied {st' : Store} (h : Turns [] [] st st') (hdenied : Denied granted st st') :
    Allocation granted st (none, st')

theorem allocation (granted : Nat → Bool) (st : Store) :
    Allocation granted st (st.allocate granted) := by
  unfold allocate
  split
  · refine .given ⟨Nat.le_succ _, fun live hl => ?_⟩
    have hfresh : st.heap.fresh 1 = [st.heap.allocated] := rfl
    exact (hfresh ▸ hl.malloc 1).perm List.perm_append_comm
  · rename_i hfail
    exact .denied ⟨Nat.le_succ _, fun _ => id⟩
      ⟨st.calls, Nat.le_refl _, Nat.lt_succ_self _, Bool.not_eq_true _ ▸ hfail⟩

theorem turns_deallocate (b : Nat) (rest : List Nat) (st : Store) :
    Turns (b :: rest) rest st (st.deallocate b) :=
  ⟨Nat.le_refl _, fun _ hl => hl.free⟩

inductive Reallocation (granted : Nat → Bool) (b : Nat) (st : Store) : Option Nat × Store → Prop
  | given {new : Nat} {st' : Store} (h : Turns [b] [new] st st') :
    Reallocation granted b st (some new, st')
  | denied {st' : Store} (h : Turns [b] [b] st st') (hdenied : Denied granted st st') :
    Reallocation granted b st (none, st')

theorem reallocation (granted : Nat → Bool) (b : Nat) (st : Store) :
    Reallocation granted b st (st.reallocate granted b) := by
  unfold reallocate
  have hall := allocation granted st
  generalize st.allocate granted = call at hall ⊢
  cases hall with
  | @given new st' h =>
    exact .given ((h.frame_left [b]).trans (turns_deallocate b [new] st'))
  | denied h hdenied => exact .denied (h.frame_left [b]) hdenied

end Store
