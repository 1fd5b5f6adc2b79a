import Mathlib.Logic.Function.Basic

/-!
# Mutexes

The threads that share a mutex are at places, some of which lie between a lock
and its unlock. The mutex excludes if whoever is at such a critical place is
its owner. A thread keeps that when it locks a mutex without an owner, unlocks
its own, and comes to a critical place in no other way.
-/

namespace Mutex

open Function (update)

variable {ι : Type u} {τ : Type v}

def Excludes (critical : τ → Bool) (pc : ι → τ) (owner : Option ι) : Prop :=
  ∀ x, critical (pc x) = true → owner = some x

variable {critical : τ → Bool} {pc : ι → τ} {owner : Option ι}

theorem Excludes.unique (h : Excludes critical pc owner) (hx : critical (pc x) = true)
    (hy : critical (pc y) = true) : x = y :=
  Option.some.inj ((h x hx).symm.trans (h y hy))

theorem Excludes.of_free (h : Excludes critical pc owner) (hfree : owner = none)
    (owner' : Option ι) : Excludes critical pc owner' := by
  intro x hx
  have hown := h x hx
  rw [hfree] at hown
  cases hown

variable [DecidableEq ι] {x : ι} {place : τ}

theorem Excludes.lock (h : Excludes critical pc owner) (hfree : owner = none) :
    Excludes critical (update pc x place) (some x) := by
  intro y hy
  by_cases hyx : y = x
  · rw [hyx]
  · rw [Function.update_of_ne hyx] at hy
    exact h.of_free hfree _ y hy

theorem Excludes.unlock (h : Excludes critical pc owner) (hx : critical (pc x) = true)
    (hplace : critical place = false) : Excludes critical (update pc x place) none := by
  intro y hy
  by_cases hyx : y = x
  · rw [hyx, Function.update_self, hplace] at hy
    cases hy
  · rw [Function.update_of_ne hyx] at hy
    exact absurd (h.unique hy hx) hyx

theorem Excludes.move (h : Excludes critical pc owner)
    (hplace : critical place = true → critical (pc x) = true) :
    Excludes critical (update pc x place) owner := by
  intro y hy
  by_cases hyx : y = x
  · subst hyx
    exact h y (hplace (by rwa [Function.update_self] at hy))
  · exact h y (by rwa [Function.update_of_ne hyx] at hy)

end Mutex
