import Zoeax.Lib.Exec

/-!
# A computation with more checks

`Checked E x y`: `x` does what `y` does, unless one of its checks fails, and that is a stop for a
reason in `E`. So a program built with its checks on can only stop earlier than the same program
with the checks off.
-/

namespace Zoeax.Lib

variable {ε σ α β : Type} {E : ε → Prop}

/-- The outcome of `x` is that of `y` or a stop for a reason in `E`. -/
def Checked (E : ε → Prop) (x y : Except ε α) : Prop := x = y ∨ ∃ e, x = .error e ∧ E e

namespace Checked

theorem refl (x : Except ε α) : Checked E x x := .inl rfl

theorem bind {x y : Except ε α} {f g : α → Except ε β} (hx : Checked E x y)
    (hf : ∀ a, Checked E (f a) (g a)) : Checked E (x >>= f) (y >>= g) := by
  rcases hx with rfl | ⟨e, rfl, he⟩
  · cases x with
    | ok a => exact hf a
    | error e => exact .inl rfl
  · exact .inr ⟨e, rfl, he⟩

end Checked

namespace Query

/-- In every state, the outcome of `q` is that of `r` or a stop for a reason in `E`. -/
structure Checked (E : ε → Prop) (q r : Query ε σ α) : Prop where
  from_state : ∀ s, Lib.Checked E (q s) (r s)

namespace Checked

theorem refl (q : Query ε σ α) : Checked E q q := ⟨fun _ => .inl rfl⟩

theorem liftExcept {x y : Except ε α} (h : Lib.Checked E x y) :
    Checked E (liftM x : Query ε σ α) (liftM y) := ⟨fun _ => h⟩

theorem bind {q r : Query ε σ α} {f g : α → Query ε σ β} (hq : Checked E q r)
    (hf : ∀ a, Checked E (f a) (g a)) : Checked E (q >>= f) (r >>= g) :=
  ⟨fun s => (hq.from_state s).bind fun a => (hf a).from_state s⟩

theorem ite {c : Prop} [Decidable c] {q q' r r' : Query ε σ α} (h : Checked E q r)
    (h' : Checked E q' r') : Checked E (if c then q else q') (if c then r else r') := by
  split
  · exact h
  · exact h'

end Checked

end Query

namespace Exec

/-- From every state, the outcome of `x` is that of `y` or a stop for a reason in `E`. -/
structure Checked (E : ε → Prop) (x y : Exec ε σ α) : Prop where
  from_state : ∀ s, x s = y s ∨ ∃ e t, x s = .error e t ∧ E e

namespace Checked

theorem refl (x : Exec ε σ α) : Checked E x x := ⟨fun _ => .inl rfl⟩

theorem lift {q r : Query ε σ α} (h : q.Checked E r) :
    Checked E (liftM q : Exec ε σ α) (liftM r) := by
  constructor
  intro s
  change q.toExec s = r.toExec s ∨ ∃ e t, q.toExec s = .error e t ∧ E e
  unfold Query.toExec
  rcases h.from_state s with hs | ⟨e, hs, he⟩
  · rw [hs]
    exact .inl rfl
  · rw [hs]
    exact .inr ⟨e, s, rfl, he⟩

theorem liftExcept {x y : Except ε α} (h : Lib.Checked E x y) :
    Checked E (liftM x : Exec ε σ α) (liftM y) :=
  lift (Query.Checked.liftExcept h)

theorem bind {x y : Exec ε σ α} {f g : α → Exec ε σ β} (hx : Checked E x y)
    (hf : ∀ a, Checked E (f a) (g a)) : Checked E (x >>= f) (y >>= g) := by
  constructor
  intro s
  change EStateM.bind x f s = EStateM.bind y g s ∨ ∃ e t, EStateM.bind x f s = .error e t ∧ E e
  unfold EStateM.bind
  rcases hx.from_state s with hs | ⟨e, t, hs, he⟩
  · rw [hs]
    cases y s with
    | ok a t => exact (hf a).from_state t
    | error e t => exact .inl rfl
  · rw [hs]
    exact .inr ⟨e, t, rfl, he⟩

theorem ite {c : Prop} [Decidable c] {x x' y y' : Exec ε σ α} (h : Checked E x y)
    (h' : Checked E x' y') : Checked E (if c then x else x') (if c then y else y') := by
  split
  · exact h
  · exact h'

/-- What returned returns without the checks, too. -/
theorem ok {x y : Exec ε σ α} (h : Checked E x y) {s t : σ} {a : α} (hx : x s = .ok a t) :
    y s = .ok a t := by
  rcases h.from_state s with hs | ⟨e, u, hs, -⟩
  · rw [← hs, hx]
  · rw [hs] at hx
    cases hx

end Checked

end Exec

end Zoeax.Lib
