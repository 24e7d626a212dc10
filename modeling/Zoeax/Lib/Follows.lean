import Zoeax.Lib.Exec

/-!
# One computation follows another

`Follows E R` compares the outcomes of two computations over different states: what the first one
does the second one does too, and the states are related by `R`. A stop for a reason in `E` is not
compared; so a computation with more checks than the other, whose failure is a stop in `E`, still
follows it.
-/

namespace Zoeax.Lib

variable {ε σ τ α β : Type}

/-- The first outcome is that of the second computation, in a related state, or a stop for a reason
in `E`. -/
inductive Follows (E : ε → Prop) (R : τ → σ → Prop) :
    EStateM.Result ε τ α → EStateM.Result ε σ α → Prop
  | ok {a : α} {t : τ} {s : σ} (h : R t s) : Follows E R (.ok a t) (.ok a s)
  | error {e : ε} {t : τ} {s : σ} (h : R t s) : Follows E R (.error e t) (.error e s)
  | stop {e : ε} {t : τ} {r : EStateM.Result ε σ α} (he : E e) : Follows E R (.error e t) r

namespace Follows

variable {E : ε → Prop} {R : τ → σ → Prop} {t : τ} {s : σ}

theorem of_ok {a : α} {r : EStateM.Result ε σ α} (h : Follows E R (.ok a t) r) :
    ∃ s', r = .ok a s' ∧ R t s' := by
  cases h with
  | ok h => exact ⟨_, rfl, h⟩

theorem mono {R' : τ → σ → Prop} {r : EStateM.Result ε τ α} {r' : EStateM.Result ε σ α}
    (h : Follows E R r r') (hR : ∀ t s, R t s → R' t s) : Follows E R' r r' := by
  cases h with
  | ok h => exact .ok (hR _ _ h)
  | error h => exact .error (hR _ _ h)
  | stop he => exact .stop he

/-- The rest of the two computations starts in related states, and both went the same way so far. -/
theorem bind {x : Exec ε τ α} {y : Exec ε σ α} {f : α → Exec ε τ β} {g : α → Exec ε σ β}
    (h : Follows E R (x t) (y s))
    (hf : ∀ a t' s', x t = .ok a t' → y s = .ok a s' → R t' s' → Follows E R (f a t') (g a s')) :
    Follows E R ((x >>= f) t) ((y >>= g) s) := by
  change Follows E R (EStateM.bind x f t) (EStateM.bind y g s)
  unfold EStateM.bind
  generalize hx : x t = r at h
  generalize hy : y s = r' at h
  cases h with
  | ok hR => exact hf _ _ _ hx hy hR
  | error hR => exact .error hR
  | stop he => exact .stop he

theorem ite {c : Prop} [Decidable c] {x x' : Exec ε τ α} {y y' : Exec ε σ α}
    (h : c → Follows E R (x t) (y s)) (h' : ¬c → Follows E R (x' t) (y' s)) :
    Follows E R ((if c then x else x') t) ((if c then y else y') s) := by
  split
  · next hc => exact h hc
  · next hc => exact h' hc

end Follows

end Zoeax.Lib
