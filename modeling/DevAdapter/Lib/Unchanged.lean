/-!
# What a computation leaves alone

The frame rules of computations that may end early: a part of the state that no
step of a computation changes is the same after it, however it ends.
-/

namespace Unchanged

variable {ε σ α β γ : Type}

def lastState : EStateM.Result ε σ α → σ
  | .ok _ s | .error _ s => s

/-- The computation leaves the part `p` of the state alone. -/
def Keeps (p : σ → γ) (x : EStateM ε σ α) : Prop := ∀ s, p (lastState (x.run s)) = p s

variable {p : σ → γ}

theorem keeps_pure (a : α) : Keeps p (pure a : EStateM ε σ α) := fun _ => rfl

theorem keeps_throw (e : ε) : Keeps p (throw e : EStateM ε σ α) := fun _ => rfl

theorem keeps_modify {f : σ → σ} (h : ∀ s, p (f s) = p s) :
    Keeps p (modify f : EStateM ε σ PUnit) := h

theorem keeps_modifyGet {f : σ → α × σ} (h : ∀ s, p (f s).2 = p s) :
    Keeps p (modifyGet f : EStateM ε σ α) := h

theorem Keeps.bind {x : EStateM ε σ α} {f : α → EStateM ε σ β} (hx : Keeps p x)
    (hf : ∀ a, Keeps p (f a)) : Keeps p (x >>= f) := by
  intro s
  have hs := hx s
  rw [EStateM.run_bind]
  cases hrun : x.run s with
  | ok a s' =>
    rw [hrun] at hs
    exact (hf a s').trans hs
  | error e s' =>
    rw [hrun] at hs
    exact hs

end Unchanged
