import Mathlib.Logic.Function.Basic

/-!
# Forests of a fixed height

Nodes, some of them roots, and edges that may depend on the level at which a node is used. In a
forest every node in use has one level: the roots are at the top, and an edge leads one level down.
Nodes that are not in use enter it as roots (`Forest.addRoot`) or below a node that is
(`Forest.link`).
-/

namespace Zoeax.Lib

variable {α : Type}

/-- `lvl` gives the level of every node in use, and of no other. -/
structure Forest (top : Nat) (root : α → Prop) (edge : Nat → α → α → Prop) (lvl : α → Option Nat) :
    Prop where
  roots : ∀ {a}, root a → lvl a = some top
  edges : ∀ {a b k}, lvl a = some (k + 1) → edge (k + 1) a b → lvl b = some k
  linked : ∀ {a k}, lvl a = some k → root a ∨ ∃ b, lvl b = some (k + 1) ∧ edge (k + 1) b a

namespace Forest

variable {top : Nat} {root root' : α → Prop} {edge edge' : Nat → α → α → Prop}
  {lvl : α → Option Nat}

/-- A node that is no root and that no edge leads to is not in use. -/
theorem unused (h : Forest top root edge lvl) {a : α} (hroot : ¬root a)
    (hedge : ∀ b k, lvl b = some (k + 1) → ¬edge (k + 1) b a) : lvl a = none := by
  cases hk : lvl a with
  | none => rfl
  | some k =>
    rcases h.linked hk with ha | ⟨b, hb, hba⟩
    · exact absurd ha hroot
    · exact absurd hba (hedge b k hb)

/-- Only the edges of nodes in use matter. -/
theorem congr (h : Forest top root edge lvl) (hroot : ∀ a, root' a ↔ root a)
    (hedge : ∀ a b k, lvl a = some (k + 1) → (edge' (k + 1) a b ↔ edge (k + 1) a b)) :
    Forest top root' edge' lvl where
  roots ha := h.roots ((hroot _).1 ha)
  edges ha hab := h.edges ha ((hedge _ _ _ ha).1 hab)
  linked ha := by
    refine (h.linked ha).imp (hroot _).2 ?_
    rintro ⟨b, hb, hba⟩
    exact ⟨b, hb, (hedge _ _ _ hb).2 hba⟩

variable [DecidableEq α]

theorem update_of_used {y a : α} {j : Nat} {v : Option Nat} (hy : lvl y = none)
    (ha : lvl a = some j) : Function.update lvl y v a = some j := by
  rwa [Function.update_of_ne]
  rintro rfl
  cases ha.symm.trans hy

/-- A new edge to a node that was not in use and has no edges. -/
theorem link (h : Forest top root edge lvl) {x y : α} {k : Nat} (hx : lvl x = some (k + 1))
    (hy : lvl y = none) (hout : ∀ b, ¬edge' k y b)
    (hedge : ∀ a b j, lvl a = some (j + 1) →
      (edge' (j + 1) a b ↔ edge (j + 1) a b ∨ (a = x ∧ b = y))) :
    Forest top root edge' (Function.update lvl y (some k)) := by
  have hold {a j} (ha : lvl a = some j) := update_of_used (v := some k) hy ha
  refine ⟨fun ha => hold (h.roots ha), fun {a b j} ha hab => ?_, fun {a j} ha => ?_⟩
  · rw [Function.update_apply] at ha
    split at ha
    · next hay =>
      rw [hay, ← Option.some.inj ha] at hab
      exact absurd hab (hout b)
    · rcases (hedge a b j ha).1 hab with hab | ⟨rfl, rfl⟩
      · exact hold (h.edges ha hab)
      · obtain rfl : k = j := Nat.succ.inj (Option.some.inj (hx.symm.trans ha))
        exact Function.update_self ..
  · rw [Function.update_apply] at ha
    split at ha
    · next hay =>
      obtain rfl := Option.some.inj ha
      exact .inr ⟨x, hold hx, (hedge x a _ hx).2 (.inr ⟨rfl, hay⟩)⟩
    · refine (h.linked ha).imp_right ?_
      rintro ⟨b, hb, hba⟩
      exact ⟨b, hold hb, (hedge b a j hb).2 (.inl hba)⟩

/-- A new root that was not in use and has no edges. -/
theorem addRoot (h : Forest top root edge lvl) {y : α} (hy : lvl y = none)
    (hout : ∀ b, ¬edge' top y b) (hroot : ∀ a, root' a ↔ root a ∨ a = y)
    (hedge : ∀ a b j, lvl a = some (j + 1) → (edge' (j + 1) a b ↔ edge (j + 1) a b)) :
    Forest top root' edge' (Function.update lvl y (some top)) := by
  have hold {a j} (ha : lvl a = some j) := update_of_used (v := some top) hy ha
  refine ⟨fun {a} ha => ?_, fun {a b j} ha hab => ?_, fun {a j} ha => ?_⟩
  · rcases (hroot a).1 ha with ha | rfl
    · exact hold (h.roots ha)
    · exact Function.update_self ..
  · rw [Function.update_apply] at ha
    split at ha
    · next hay =>
      rw [hay, ← Option.some.inj ha] at hab
      exact absurd hab (hout b)
    · exact hold (h.edges ha ((hedge a b j ha).1 hab))
  · rw [Function.update_apply] at ha
    split at ha
    · next hay => exact .inl ((hroot a).2 (.inr hay))
    · refine (h.linked ha).imp (fun ha => (hroot a).2 (.inl ha)) ?_
      rintro ⟨b, hb, hba⟩
      exact ⟨b, hold hb, (hedge b a j hb).2 hba⟩

end Forest

end Zoeax.Lib
