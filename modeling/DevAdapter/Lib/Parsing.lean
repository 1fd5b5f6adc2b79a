import Mathlib.Data.List.Basic

/-!
# Parsers on a text

A parser takes a value off the front of a text and leaves the rest. When it
stops at a place where the value cannot go on, more text behind that place
changes nothing; for a list of items that is the closing mark itself.
-/

namespace Parsing

abbrev Parser (β α : Type) := List β → Option (α × List β)

variable {α β : Type} {s rest t : List β} {v : α}

/-- What is taken stays the same with more text behind a rest that ends the value. -/
def Extends (ended : α → List β → Prop) (p : Parser β α) : Prop :=
  ∀ ⦃s v rest⦄, p s = some (v, rest) → ended v rest → ∀ t, p (s ++ t) = some (v, rest ++ t)

def Shrinks (p : Parser β α) : Prop :=
  ∀ ⦃s v rest⦄, p s = some (v, rest) → rest.length < s.length

/-- What `p` takes, `q` takes too. -/
def Within (p q : Parser β α) : Prop :=
  ∀ ⦃s v rest⦄, p s = some (v, rest) → q s = some (v, rest)

-- ---------------------------------------------------------------------------
-- Spaces
-- ---------------------------------------------------------------------------

theorem dropWhile_append_cons {space : β → Bool} (h : s.dropWhile space = c :: rest) (t : List β) :
    (s ++ t).dropWhile space = c :: (rest ++ t) := by
  simp [List.dropWhile_append, h]

theorem length_dropWhile_le (space : β → Bool) (s : List β) :
    (s.dropWhile space).length ≤ s.length :=
  (List.dropWhile_suffix space).length_le

theorem length_dropWhile_cons {space : β → Bool} (h : s.dropWhile space = c :: rest) :
    rest.length < s.length := by
  have hle := length_dropWhile_le space s
  rwa [h, List.length_cons] at hle

theorem Extends.skip {ended : α → List β → Prop} {p : Parser β α} (hp : Extends ended p)
    (hshrinks : Shrinks p) {space : β → Bool} (h : p (s.dropWhile space) = some (v, rest))
    (hend : ended v rest) (t : List β) : p ((s ++ t).dropWhile space) = some (v, rest ++ t) := by
  rw [List.dropWhile_append]
  split
  · rename_i hempty
    rw [List.isEmpty_iff.mp hempty] at h
    exact absurd (hshrinks h) (Nat.not_lt_zero _)
  · exact hp h hend t

-- ---------------------------------------------------------------------------
-- Items up to a closing mark
-- ---------------------------------------------------------------------------

variable [DecidableEq β] {space : β → Bool} {sep close : β} {item : Parser β α} {vs : List α}

/-- Items with `sep` between them, and `close` behind the last. -/
def items (space : β → Bool) (sep close : β) (item : Parser β α) : Nat → Parser β (List α)
  | 0, _ => none
  | fuel + 1, s =>
    match item (s.dropWhile space) with
    | none => none
    | some (v, s) =>
      match s.dropWhile space with
      | [] => none
      | c :: s =>
        if c = sep then
          (items space sep close item fuel s).map fun (vs, rest) => (v :: vs, rest)
        else if c = close then some ([v], s)
        else none

theorem items_spaces {spaces : List β} (h : ∀ c ∈ spaces, space c = true) (s : List β) :
    items space sep close item fuel (spaces ++ s) = items space sep close item fuel s := by
  cases fuel with
  | zero => rfl
  | succ fuel => simp only [items, List.dropWhile_append_of_pos h]

/-- One pass: an item, and the mark behind it. -/
inductive Pass (space : β → Bool) (sep close : β) (item : Parser β α) (fuel : Nat) (s : List β) :
    List α → List β → Prop
  | more {v s₁ s₂ vs rest} (hitem : item (s.dropWhile space) = some (v, s₁))
      (hmark : s₁.dropWhile space = sep :: s₂)
      (hrest : items space sep close item fuel s₂ = some (vs, rest)) :
      Pass space sep close item fuel s (v :: vs) rest
  | last {v s₁ rest} (hitem : item (s.dropWhile space) = some (v, s₁))
      (hmark : s₁.dropWhile space = close :: rest) (hne : close ≠ sep) :
      Pass space sep close item fuel s [v] rest

theorem pass_of_items (h : items space sep close item (fuel + 1) s = some (vs, rest)) :
    Pass space sep close item fuel s vs rest := by
  rw [items] at h
  split at h
  · cases h
  · rename_i hitem
    split at h
    · cases h
    · rename_i c s₂ hmark
      by_cases hsep : c = sep
      · rw [if_pos hsep, Option.map_eq_some_iff] at h
        obtain ⟨⟨vs', rest'⟩, hrest, heq⟩ := h
        cases heq
        exact .more hitem (hsep ▸ hmark) hrest
      · rw [if_neg hsep] at h
        by_cases hclose : c = close
        · rw [if_pos hclose] at h
          cases h
          exact .last hitem (hclose ▸ hmark) (hclose ▸ hsep)
        · rw [if_neg hclose] at h
          cases h

theorem Pass.items (h : Pass space sep close item fuel s vs rest) :
    Parsing.items space sep close item (fuel + 1) s = some (vs, rest) := by
  cases h with
  | more hitem hmark hrest => simp [Parsing.items, hitem, hmark, hrest]
  | last hitem hmark hne => simp [Parsing.items, hitem, hmark, hne]

theorem Within.items {item' : Parser β α} (h : Within item item') :
    Within (items space sep close item fuel) (items space sep close item' fuel) := by
  intro s vs rest hs
  induction fuel generalizing s vs rest with
  | zero => cases hs
  | succ fuel ih =>
    cases pass_of_items hs with
    | more hv hmark hrest => exact (Pass.more (h hv) hmark (ih hrest)).items
    | last hv hmark hne => exact (Pass.last (h hv) hmark hne).items

theorem items_shrinks (hitem : Shrinks item) : Shrinks (items space sep close item fuel) := by
  intro s vs rest h
  induction fuel generalizing s vs rest with
  | zero => cases h
  | succ fuel ih =>
    have hle := length_dropWhile_le space s
    cases pass_of_items h with
    | more hv hmark hrest =>
      have h₁ := hitem hv
      have h₂ := length_dropWhile_cons hmark
      have h₃ := ih hrest
      omega
    | last hv hmark hne =>
      have h₁ := hitem hv
      have h₂ := length_dropWhile_cons hmark
      omega

/-- With fuel for every byte of the text the fuel decides nothing. -/
theorem items_fuel (hitem : Shrinks item) (hf : s.length < fuel) (hg : s.length < fuel') :
    items space sep close item fuel s = items space sep close item fuel' s := by
  induction fuel generalizing s fuel' with
  | zero => cases hf
  | succ fuel ih =>
    cases fuel' with
    | zero => cases hg
    | succ fuel' =>
      have hle := length_dropWhile_le space s
      simp only [items]
      split
      · rfl
      · rename_i hv
        have h₁ := hitem hv
        split
        · rfl
        · rename_i s₂ hmark
          have h₂ := length_dropWhile_cons hmark
          have hsame : items space sep close item fuel s₂ = items space sep close item fuel' s₂ :=
            ih (by omega) (by omega)
          rw [hsame]

/-- The closing mark ends a list of items whatever stands behind it, when each
item is ended by a mark. -/
theorem items_extends {ended : α → List β → Prop} (hitem : Extends ended item)
    (hshrinks : Shrinks item)
    (hended : ∀ {v s c rest}, s.dropWhile space = c :: rest → c = sep ∨ c = close → ended v s)
    (h : items space sep close item fuel s = some (vs, rest)) (t : List β) :
    items space sep close item fuel (s ++ t) = some (vs, rest ++ t) := by
  induction fuel generalizing s vs rest with
  | zero => cases h
  | succ fuel ih =>
    cases pass_of_items h with
    | more hv hmark hrest =>
      have hv' := hitem.skip hshrinks hv (hended hmark (.inl rfl)) t
      exact (Pass.more hv' (dropWhile_append_cons hmark t) (ih hrest)).items
    | last hv hmark hne =>
      have hv' := hitem.skip hshrinks hv (hended hmark (.inr rfl)) t
      exact (Pass.last hv' (dropWhile_append_cons hmark t) hne).items

end Parsing
