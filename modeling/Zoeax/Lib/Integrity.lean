import Mathlib.Logic.Relation

/-!
# Who changes what

A system in which every state has an actor, and a part for every domain. `Integrity` says what one
step does: the invariant stays, and the part of a domain stays unless the actor may act on it.
`same_of_run`: so it is in runs, as long as no actor may act on the domain.
-/

namespace Zoeax.Lib

/-- `same d s t`: the part of the domain `d` is the same in both states. -/
structure Integrity {σ δ : Type} (step : σ → σ → Prop) (inv : σ → Prop) (actor : σ → δ)
    (may : δ → δ → Prop) (same : δ → σ → σ → Prop) : Prop where
  refl : ∀ d s, same d s s
  trans : ∀ {d s t u}, same d s t → same d t u → same d s u
  keep : ∀ {s t}, inv s → step s t → inv t
  respect : ∀ {d s t}, inv s → step s t → ¬may (actor s) d → same d s t

namespace Integrity

variable {σ δ : Type} {step : σ → σ → Prop} {inv : σ → Prop} {actor : σ → δ} {may : δ → δ → Prop}
  {same : δ → σ → σ → Prop}

theorem same_of_run (h : Integrity step inv actor may same) {d : δ} {s t : σ} (hs : inv s)
    (run : Relation.ReflTransGen (fun s t => step s t ∧ ¬may (actor s) d) s t) :
    inv t ∧ same d s t := by
  induction run with
  | refl => exact ⟨hs, h.refl d s⟩
  | tail _ hstep ih =>
    obtain ⟨hinv, hsame⟩ := ih
    exact ⟨h.keep hinv hstep.1, h.trans hsame (h.respect hinv hstep.1 hstep.2)⟩

end Integrity

end Zoeax.Lib
