import Mathlib.Data.List.Chain
import Mathlib.Data.List.Nodup
import Mathlib.Logic.Function.Basic

/-!
# Circular doubly linked lists

Nodes that carry their own two pointers, in a list that goes round through a
head. The operations only store pointers, whatever list a node is in or has
been in. `Ring s head l` says that the nodes of `l` and no others are on the
list of `head`, in this order and both ways; inserting before the head and
deleting a member keep a ring a ring.
-/

namespace LinkedList

open Function (update)

variable {α : Type u}

structure Pointers (α : Type u) where
  next : α → α
  prev : α → α

def Pointers.Linked (s : Pointers α) (x y : α) : Prop := s.next x = y ∧ s.prev y = x

/-- The nodes on the list of `head`. -/
structure Ring (s : Pointers α) (head : α) (l : List α) : Prop where
  nodup : (head :: l).Nodup
  chain : (head :: (l ++ [head])).IsChain s.Linked

variable {s : Pointers α} {head p q x : α} {l l' : List α}

theorem Ring.next_head (h : Ring s head (x :: l)) : s.next head = x :=
  ((List.isChain_cons_cons.mp h.chain).1).1

theorem Ring.next_head_nil (h : Ring s head []) : s.next head = head :=
  ((List.isChain_cons_cons.mp h.chain).1).1

theorem Ring.unique (h : Ring s head l) (h' : Ring s head l') : l = l' := by
  have hfollow : ∀ (l l' : List α) (x : α), head ∉ l → head ∉ l' →
      (x :: (l ++ [head])).IsChain s.Linked → (x :: (l' ++ [head])).IsChain s.Linked → l = l' := by
    intro l
    induction l with
    | nil =>
      intro l' x _ hl' hchain hchain'
      cases l' with
      | nil => rfl
      | cons y l' =>
        have hx := (List.isChain_cons_cons.mp hchain).1.1
        have hx' := (List.isChain_cons_cons.mp hchain').1.1
        simp [← hx, hx'] at hl'
    | cons y l ih =>
      intro l' x hl hl' hchain hchain'
      cases l' with
      | nil =>
        have hx := (List.isChain_cons_cons.mp hchain).1.1
        have hx' := (List.isChain_cons_cons.mp hchain').1.1
        simp [← hx', hx] at hl
      | cons y' l' =>
        obtain ⟨⟨hx, -⟩, hrest⟩ := List.isChain_cons_cons.mp hchain
        obtain ⟨⟨hx', -⟩, hrest'⟩ := List.isChain_cons_cons.mp hchain'
        obtain rfl : y = y' := hx.symm.trans hx'
        rw [ih l' y (List.not_mem_of_not_mem_cons hl) (List.not_mem_of_not_mem_cons hl')
          hrest hrest']
  exact hfollow l l' head (List.nodup_cons.mp h.nodup).1 (List.nodup_cons.mp h'.nodup).1
    h.chain h'.chain

theorem exists_last (a : α) (l : List α) : ∃ pre p, a :: l = pre ++ [p] := by
  obtain hnil | ⟨pre, p, hlast⟩ := List.eq_nil_or_concat (a :: l)
  · cases hnil
  · exact ⟨pre, p, by rw [hlast, List.concat_eq_append]⟩

variable [DecidableEq α]

-- ---------------------------------------------------------------------------
-- Stores
-- ---------------------------------------------------------------------------

namespace Pointers

def setNext (s : Pointers α) (x y : α) : Pointers α := { s with next := update s.next x y }

def setPrev (s : Pointers α) (x y : α) : Pointers α := { s with prev := update s.prev x y }

end Pointers

theorem chain_setNext (h : l.IsChain s.Linked) (hx : x ∉ l.dropLast) (y : α) :
    l.IsChain (s.setNext x y).Linked := by
  induction l with
  | nil => exact .nil
  | cons a l ih =>
    cases l with
    | nil => exact .singleton a
    | cons b l =>
      obtain ⟨hab, hrest⟩ := List.isChain_cons_cons.mp h
      rw [List.dropLast_cons_cons, List.mem_cons, not_or] at hx
      refine List.isChain_cons_cons.mpr ⟨⟨?_, hab.2⟩, ih hrest hx.2⟩
      exact (Function.update_of_ne (Ne.symm hx.1) _ _).trans hab.1

theorem chain_setPrev (h : l.IsChain s.Linked) (hx : x ∉ l.tail) (y : α) :
    l.IsChain (s.setPrev x y).Linked := by
  induction l with
  | nil => exact .nil
  | cons a l ih =>
    cases l with
    | nil => exact .singleton a
    | cons b l =>
      obtain ⟨hab, hrest⟩ := List.isChain_cons_cons.mp h
      rw [List.tail_cons, List.mem_cons, not_or] at hx
      refine List.isChain_cons_cons.mpr ⟨⟨hab.1, ?_⟩, ih hrest hx.2⟩
      exact (Function.update_of_ne (Ne.symm hx.1) _ _).trans hab.2

-- ---------------------------------------------------------------------------
-- The operations
-- ---------------------------------------------------------------------------

namespace Pointers

def initHead (s : Pointers α) (head : α) : Pointers α := (s.setNext head head).setPrev head head

def insert (s : Pointers α) (x prev next : α) : Pointers α :=
  (((s.setPrev next x).setNext x next).setPrev x prev).setNext prev x

def addTail (s : Pointers α) (x head : α) : Pointers α := s.insert x (s.prev head) head

/-- Makes `prev` and `next` point at each other. -/
def join (s : Pointers α) (prev next : α) : Pointers α := (s.setPrev next prev).setNext prev next

/-- Makes the neighbours that `x` points at point at each other. -/
def del (s : Pointers α) (x : α) : Pointers α := s.join (s.prev x) (s.next x)

end Pointers

theorem ring_initHead (s : Pointers α) (head : α) : Ring (s.initHead head) head [] := by
  refine ⟨by simp, List.isChain_pair.mpr ⟨?_, ?_⟩⟩
  · exact Function.update_self _ _ _
  · exact Function.update_self _ _ _

theorem Ring.addTail (h : Ring s head l) (hx : x ∉ head :: l) :
    Ring (s.addTail x head) head (l ++ [x]) := by
  obtain ⟨hxhead, hxl⟩ := not_or.mp (List.mem_cons.not.mp hx)
  obtain ⟨pre, p, hlast⟩ := exists_last head l
  have hnodup := h.nodup
  have hchain := h.chain
  rw [← List.cons_append, hlast, List.append_assoc, List.singleton_append,
    List.isChain_append_cons_cons] at hchain
  obtain ⟨hfront, ⟨-, hprev⟩, -⟩ := hchain
  refine ⟨?_, ?_⟩
  · rw [← List.cons_append, ← List.concat_eq_append]
    exact .concat hx hnodup
  · have hlist : head :: (l ++ [x] ++ [head]) = pre ++ p :: x :: [head] := by
      rw [List.append_assoc, ← List.cons_append, hlast, List.append_assoc]
      rfl
    rw [hlast] at hnodup hx
    have hp : p ∉ pre := fun hp => (List.nodup_append.mp hnodup).2.2 p hp p (by simp) rfl
    have hpx : p ≠ x := fun heq => hx (by simp [heq])
    have hxpre : x ∉ pre := fun hmem => hx (by simp [hmem])
    have hheadl : head ∉ l := (List.nodup_cons.mp h.nodup).1
    rw [hlist, List.isChain_append_cons_cons, List.isChain_pair, Pointers.addTail, hprev]
    refine ⟨?_, ⟨?_, ?_⟩, ?_, ?_⟩
    · -- the nodes before keep their pointers but for the `next` of the last one
      rw [← hlast] at hfront ⊢
      refine chain_setNext (chain_setPrev (chain_setNext (chain_setPrev hfront ?_ _) ?_ _) ?_ _) ?_ _
      · exact hheadl
      · rwa [hlast, List.dropLast_concat]
      · exact hxl
      · rwa [hlast, List.dropLast_concat]
    · exact Function.update_self _ _ _
    · exact Function.update_self _ _ _
    · exact (Function.update_of_ne (Ne.symm hpx) _ _).trans (Function.update_self _ _ _)
    · exact (Function.update_of_ne (Ne.symm hxhead) _ _).trans (Function.update_self _ _ _)

theorem Ring.del [BEq α] [LawfulBEq α] (h : Ring s head l) (hx : x ∈ l) :
    Ring (s.del x) head (l.erase x) := by
  obtain ⟨l₁, l₂, hx₁, rfl, herase⟩ := List.exists_erase_eq hx
  obtain ⟨pre, p, hlast⟩ := exists_last head l₁
  obtain ⟨q, post, hfirst⟩ : ∃ q post, l₂ ++ [head] = q :: post := by
    cases l₂ with
    | nil => exact ⟨head, [], rfl⟩
    | cons b l₂ => exact ⟨b, l₂ ++ [head], rfl⟩
  have hnodup := h.nodup
  have hchain := h.chain
  have hlist : head :: (l₁ ++ x :: l₂ ++ [head]) = pre ++ p :: x :: q :: post := by
    rw [List.append_assoc, ← List.cons_append, hlast, List.cons_append, hfirst, List.append_assoc]
    rfl
  rw [hlist, List.isChain_append_cons_cons, List.isChain_cons_cons] at hchain
  obtain ⟨hfront, ⟨-, hprev⟩, ⟨hnext, -⟩, hback⟩ := hchain
  have hrest : (head :: l₁ ++ l₂).Nodup := by
    refine hnodup.sublist ?_
    exact (List.Sublist.append_left (List.sublist_cons_self x l₂) l₁).cons_cons head
  obtain ⟨hnodup₁, hnodup₂, hdisj⟩ := List.nodup_append.mp hrest
  have hp : p ∈ head :: l₁ := by simp [hlast]
  have hqback : ∀ a ∈ l₁, a ∉ l₂ ++ [head] := by
    intro a ha hmem
    rcases List.mem_append.mp hmem with hmem | hmem
    · exact hdisj a (List.mem_cons_of_mem _ ha) a hmem rfl
    · exact (List.nodup_cons.mp hnodup₁).1 (List.mem_singleton.mp hmem ▸ ha)
  refine ⟨by rwa [herase], ?_⟩
  rw [herase, List.append_assoc, ← List.cons_append, hlast, hfirst, List.append_assoc,
    List.singleton_append, List.isChain_append_cons_cons, Pointers.del, hprev, hnext]
  refine ⟨?_, ⟨?_, ?_⟩, ?_⟩
  · rw [← hlast] at hfront ⊢
    refine chain_setNext (chain_setPrev hfront ?_ _) ?_ _
    · exact fun hmem => hqback q hmem (by simp [hfirst])
    · rw [hlast, List.dropLast_concat]
      rw [hlast] at hnodup₁
      exact fun hmem => (List.nodup_append.mp hnodup₁).2.2 p hmem p (by simp) rfl
  · exact Function.update_self _ _ _
  · exact Function.update_self _ _ _
  · have hback₂ : (q :: post).Nodup := by
      rw [← hfirst, ← List.concat_eq_append]
      exact .concat (fun hmem => hdisj head (by simp) head hmem rfl) hnodup₂
    refine chain_setNext (chain_setPrev hback ?_ _) ?_ _
    · exact (List.nodup_cons.mp hback₂).1
    · rw [← hfirst, List.dropLast_concat]
      exact fun hmem => hdisj p hp p hmem rfl

end LinkedList
