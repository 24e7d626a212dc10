import Mathlib.Data.List.Nodup
import Mathlib.Logic.Function.Basic

/-!
# Families of queues

A family of queues in which a member is in at most one queue, and there once. Members leave at the
front and join at the end.
-/

namespace Zoeax.Lib

variable {ι α : Type}

/-- Each member is in at most one of the queues, once. -/
structure Exclusive (q : ι → List α) : Prop where
  nodup : ∀ i, (q i).Nodup
  unique : ∀ {i j a}, a ∈ q i → a ∈ q j → i = j

namespace Exclusive

variable [DecidableEq ι] {q : ι → List α}

theorem mem_update {i j : ι} {l : List α} {a : α} :
    a ∈ Function.update q i l j ↔ (j = i ∧ a ∈ l) ∨ (j ≠ i ∧ a ∈ q j) := by
  by_cases h : j = i
  · subst h
    simp
  · simp [h]

omit [DecidableEq ι] in
/-- Members may leave. -/
theorem mono (hq : Exclusive q) {q' : ι → List α} (h : ∀ i, (q' i).Sublist (q i)) :
    Exclusive q' where
  nodup i := (hq.nodup i).sublist (h i)
  unique hi hj := hq.unique ((h _).subset hi) ((h _).subset hj)

theorem sublist_update {i : ι} {l : List α} (hl : l.Sublist (q i)) (j : ι) :
    (Function.update q i l j).Sublist (q j) := by
  rw [Function.update_apply]
  split
  · next h => exact h ▸ hl
  · exact .refl _

/-- A member that is in no queue may join one. -/
theorem push (hq : Exclusive q) (i : ι) {a : α} (ha : ∀ j, a ∉ q j) :
    Exclusive (Function.update q i (q i ++ [a])) := by
  have hmem : ∀ {j b}, b ∈ Function.update q i (q i ++ [a]) j → b ∈ q j ∨ (b = a ∧ j = i) := by
    intro j b h
    rcases mem_update.1 h with ⟨rfl, hb⟩ | ⟨-, hb⟩
    · rw [List.mem_append, List.mem_singleton] at hb
      exact hb.imp_right fun hb => ⟨hb, rfl⟩
    · exact .inl hb
  refine ⟨fun j => ?_, fun {j k b} hj hk => ?_⟩
  · rw [Function.update_apply]
    split
    · exact (hq.nodup i).append (List.nodup_singleton a) (by simpa using ha i)
    · exact hq.nodup j
  · rcases hmem hj with hj' | ⟨hb, hj'⟩ <;> rcases hmem hk with hk' | ⟨hb', hk'⟩
    · exact hq.unique hj' hk'
    · exact absurd (hb' ▸ hj') (ha j)
    · exact absurd (hb ▸ hk') (ha k)
    · exact hj'.trans hk'.symm

/-- The member at the front leaves, and is then in no queue. -/
theorem pop (hq : Exclusive q) {i : ι} {a : α} {rest : List α} (h : q i = a :: rest) (j : ι) :
    a ∉ Function.update q i rest j := by
  intro hmem
  rcases mem_update.1 hmem with ⟨-, ha⟩ | ⟨hne, ha⟩
  · have := hq.nodup i
    rw [h, List.nodup_cons] at this
    exact this.1 ha
  · exact hne (hq.unique ha (by rw [h]; exact List.mem_cons_self ..))

end Exclusive

end Zoeax.Lib
