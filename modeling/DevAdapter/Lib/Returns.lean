/-!
# Code that may stop

Code on a state that may stop without a result: at an access that is undefined,
or when the fuel of a loop is used up. `Returns` is total correctness: the code
comes to its end, and the postcondition holds of the result and the state then.
-/

/-- The code ends, with a result and a state of which `post` holds. -/
def Returns (x : StateT σ Option α) (s : σ) (post : α → σ → Prop) : Prop :=
  ∃ v s', x.run s = some (v, s') ∧ post v s'

namespace Returns

variable {σ α β : Type} {s : σ} {post mid : α → σ → Prop}

theorem ret {v : α} (h : post v s) : Returns (pure v) s post := ⟨v, s, rfl, h⟩

theorem bind {x : StateT σ Option α} {f : α → StateT σ Option β} {post : β → σ → Prop}
    (hx : Returns x s mid) (hf : ∀ v s', mid v s' → Returns (f v) s' post) :
    Returns (x >>= f) s post := by
  obtain ⟨v, s', hrun, hmid⟩ := hx
  obtain ⟨w, s'', hrun', hpost⟩ := hf v s' hmid
  refine ⟨w, s'', ?_, hpost⟩
  simp only [StateT.run_bind, hrun]
  exact hrun'

theorem imp {x : StateT σ Option α} (h : Returns x s mid) (hpost : ∀ v s', mid v s' → post v s') :
    Returns x s post := by
  obtain ⟨v, s', hrun, hmid⟩ := h
  exact ⟨v, s', hrun, hpost v s' hmid⟩

theorem step {x : StateT σ Option α} {f : α → StateT σ Option β} {post : β → σ → Prop} {v : α}
    {s' : σ} (hx : x.run s = some (v, s')) (hf : Returns (f v) s' post) :
    Returns (x >>= f) s post := by
  have hret : Returns x s fun w t => w = v ∧ t = s' := ⟨v, s', hx, rfl, rfl⟩
  refine hret.bind ?_
  rintro w t ⟨rfl, rfl⟩
  exact hf

end Returns
