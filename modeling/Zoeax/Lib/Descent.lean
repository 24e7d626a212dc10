import Mathlib.Data.Set.Finite.Lattice
import Mathlib.Logic.Relation
import Mathlib.Order.Filter.AtTopBot.Basic
import Mathlib.Order.Filter.Finite

/-!
# Recursive descent

A recursion visits a node if the node is fit for it, and then every node behind it. It does not
remember where it was, so it comes back to a node as often as there are ways to it. `Descent` says
this of a function with a bound on the levels that are left: `done n x` is that the visit of `x`
returns with `n` levels.

Such a visit returns for some bound if and only if all nodes that can be reached are fit and none of
them can be reached from itself (`Descent.exists_iff`).
-/

namespace Zoeax.Lib

open Relation

variable {α : Type} {r : α → α → Prop} {fit : α → Prop} {done : Nat → α → Prop}

/-- The visit of a node with `n + 1` levels: the node is fit, and every node behind it can be
visited with `n` levels. -/
structure Descent (r : α → α → Prop) (fit : α → Prop) (done : Nat → α → Prop) : Prop where
  zero : ∀ x, ¬done 0 x
  succ : ∀ n x, done (n + 1) x ↔ fit x ∧ ∀ y, r x y → done n y

namespace Descent

variable (h : Descent r fit done)

include h

/-- More levels do no harm. -/
theorem mono {n m : Nat} (hnm : n ≤ m) {x : α} (hx : done n x) : done m x := by
  induction n generalizing m x with
  | zero => exact absurd hx (h.zero x)
  | succ n ih =>
    obtain ⟨m, rfl⟩ := Nat.exists_eq_succ_of_ne_zero (by omega : m ≠ 0)
    obtain ⟨hfit, hnext⟩ := (h.succ n x).1 hx
    refine (h.succ m x).2 ⟨hfit, ?_⟩
    intro y hxy
    exact ih (Nat.le_of_succ_le_succ hnm) (hnext y hxy)

/-- A visit gets to every node that can be reached. -/
theorem reach {n : Nat} {x y : α} (hx : done n x) (hxy : ReflTransGen r x y) : ∃ m, done m y := by
  induction hxy with
  | refl => exact ⟨n, hx⟩
  | tail _ hyz ih =>
    obtain ⟨m, hm⟩ := ih
    cases m with
    | zero => exact absurd hm (h.zero _)
    | succ m => exact ⟨m, ((h.succ m _).1 hm).2 _ hyz⟩

/-- It takes a level less for every node that can be reached in a step or more. -/
theorem pred {n : Nat} {x y : α} (hxy : TransGen r x y) (hx : done (n + 1) x) : done n y := by
  induction hxy generalizing n with
  | single hxy => exact ((h.succ n x).1 hx).2 _ hxy
  | tail _ hyz ih =>
    have hy := ih hx
    cases n with
    | zero => exact absurd hy (h.zero _)
    | succ n => exact h.mono (Nat.le_succ n) (((h.succ n _).1 hy).2 _ hyz)

/-- A node that can be reached from itself cannot be visited. -/
theorem not_done_of_cycle {x : α} (hx : TransGen r x x) (n : Nat) : ¬done n x := by
  induction n with
  | zero => exact h.zero x
  | succ n ih => exact fun hn => ih (h.pred hx hn)

/-- Finitely many nodes have a bound in common. -/
theorem exists_common {s : Set α} (hs : s.Finite) (hdone : ∀ x ∈ s, ∃ n, done n x) :
    ∃ n, ∀ x ∈ s, done n x := by
  have hall : ∀ᶠ n in Filter.atTop, ∀ x ∈ s, done n x := by
    rw [Filter.eventually_all_finite hs]
    intro x hx
    obtain ⟨n, hn⟩ := hdone x hx
    exact Filter.eventually_atTop.2 ⟨n, fun m hm => h.mono hm hn⟩
  exact hall.exists

/-- **A visit returns** if and only if the nodes that can be reached are fit and lie on no cycle. -/
theorem exists_iff {x : α} (hfin : {y | ReflTransGen r x y}.Finite) :
    (∃ n, done n x) ↔ ∀ y, ReflTransGen r x y → fit y ∧ ¬TransGen r y y := by
  constructor
  · rintro ⟨n, hx⟩ y hxy
    obtain ⟨m, hm⟩ := h.reach hx hxy
    refine ⟨?_, fun hcycle => h.not_done_of_cycle hcycle m hm⟩
    cases m with
    | zero => exact absurd hm (h.zero y)
    | succ m => exact ((h.succ m y).1 hm).1
  · intro hall
    -- what is behind a node comes before it in this order on the nodes below `x`
    have : Finite {y | ReflTransGen r x y} := hfin
    let behind : {y | ReflTransGen r x y} → {y | ReflTransGen r x y} → Prop :=
      fun z y => TransGen r y.1 z.1
    have : IsTrans _ behind := ⟨fun _ _ _ hab hbc => hbc.trans hab⟩
    have : Std.Irrefl behind := ⟨fun y => (hall y.1 y.2).2⟩
    have hwf : WellFounded behind := Finite.wellFounded_of_trans_of_irrefl behind
    suffices hnodes : ∀ y : {y | ReflTransGen r x y}, ∃ n, done n y.1 from hnodes ⟨x, .refl⟩
    intro y
    induction y using hwf.induction with
    | _ y ih =>
      have hsub : {z | r y.1 z} ⊆ {z | ReflTransGen r x z} := fun z hyz => y.2.tail hyz
      obtain ⟨n, hn⟩ := h.exists_common (hfin.subset hsub) fun z hyz =>
        ih ⟨z, hsub hyz⟩ (TransGen.single hyz)
      exact ⟨n + 1, (h.succ n y.1).2 ⟨(hall y.1 y.2).1, hn⟩⟩

end Descent

end Zoeax.Lib
