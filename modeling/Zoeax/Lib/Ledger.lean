import Mathlib.Logic.Function.Basic

/-!
# Ledgers

A store maps keys to values, and a book has lines, some of which record one entry of the store. In a
`Ledger` every entry is recorded, every record is of an entry, and no entry is recorded twice.

So an entry and its line can be made together (`Ledger.insert`) and be taken away together
(`Ledger.erase`): no other line is about that entry.
-/

namespace Zoeax.Lib

variable {α β ι : Type}

/-- Every entry of the store is recorded in one line of the book, and nothing else is. -/
structure Ledger (store : α → Option β) (book : ι → Option (α × β)) : Prop where
  recorded : ∀ {a b}, store a = some b → ∃ i, book i = some (a, b)
  backed : ∀ {i a b}, book i = some (a, b) → store a = some b
  once : ∀ {i j a b}, book i = some (a, b) → book j = some (a, b) → i = j

namespace Ledger

variable {store : α → Option β} {book : ι → Option (α × β)}

theorem empty (hstore : ∀ a, store a = none) (hbook : ∀ i, book i = none) : Ledger store book where
  recorded h := absurd ((hstore _).symm.trans h) nofun
  backed h := absurd ((hbook _).symm.trans h) nofun
  once h := absurd ((hbook _).symm.trans h) nofun

/-- A key without an entry is in no line. -/
theorem key_ne (h : Ledger store book) {i : ι} {a a' : α} {b : β} (ha : store a = none)
    (hi : book i = some (a', b)) : a' ≠ a := by
  rintro rfl
  cases (h.backed hi).symm.trans ha

variable [DecidableEq α] [DecidableEq ι]

/-- A new entry, and the line that records it. -/
theorem insert (h : Ledger store book) {a : α} {b : β} {i : ι} (ha : store a = none)
    (hi : book i = none) :
    Ledger (Function.update store a (some b)) (Function.update book i (some (a, b))) where
  recorded {a' b'} hs := by
    by_cases hne : a' = a
    · subst hne
      rw [Function.update_self] at hs
      obtain rfl := Option.some.inj hs
      exact ⟨i, Function.update_self ..⟩
    · rw [Function.update_of_ne hne] at hs
      obtain ⟨j, hj⟩ := h.recorded hs
      have hji : j ≠ i := by
        rintro rfl
        cases hj.symm.trans hi
      exact ⟨j, (Function.update_of_ne hji ..).trans hj⟩
  backed {j a' b'} hb := by
    by_cases hne : j = i
    · subst hne
      rw [Function.update_self] at hb
      obtain ⟨rfl, rfl⟩ := Prod.mk.inj (Option.some.inj hb)
      exact Function.update_self ..
    · rw [Function.update_of_ne hne] at hb
      exact (Function.update_of_ne (h.key_ne ha hb) ..).trans (h.backed hb)
  once {j k a' b'} hj hk := by
    by_cases hji : j = i <;> by_cases hki : k = i
    · exact hji.trans hki.symm
    · subst hji
      rw [Function.update_self] at hj
      rw [Function.update_of_ne hki] at hk
      exact absurd (Prod.mk.inj (Option.some.inj hj)).1.symm (h.key_ne ha hk)
    · subst hki
      rw [Function.update_self] at hk
      rw [Function.update_of_ne hji] at hj
      exact absurd (Prod.mk.inj (Option.some.inj hk)).1.symm (h.key_ne ha hj)
    · rw [Function.update_of_ne hji] at hj
      rw [Function.update_of_ne hki] at hk
      exact h.once hj hk

/-- An entry is taken away with the line that records it. -/
theorem erase (h : Ledger store book) {a : α} {b : β} {i : ι} (hi : book i = some (a, b)) :
    Ledger (Function.update store a none) (Function.update book i none) where
  recorded {a' b'} hs := by
    have hne : a' ≠ a := by
      rintro rfl
      rw [Function.update_self] at hs
      cases hs
    rw [Function.update_of_ne hne] at hs
    obtain ⟨j, hj⟩ := h.recorded hs
    have hji : j ≠ i := by
      rintro rfl
      exact hne (Prod.mk.inj (Option.some.inj (hj.symm.trans hi))).1
    exact ⟨j, (Function.update_of_ne hji ..).trans hj⟩
  backed {j a' b'} hb := by
    have hji : j ≠ i := by
      rintro rfl
      rw [Function.update_self] at hb
      cases hb
    rw [Function.update_of_ne hji] at hb
    have hs := h.backed hb
    have hne : a' ≠ a := by
      rintro rfl
      obtain rfl : b' = b := Option.some.inj (hs.symm.trans (h.backed hi))
      exact hji (h.once hb hi)
    exact (Function.update_of_ne hne ..).trans hs
  once {j k a' b'} hj hk := by
    have hline : ∀ {l}, Function.update book i none l = some (a', b') → book l = some (a', b') :=
      fun {l} hl => by
        by_cases hli : l = i
        · subst hli
          rw [Function.update_self] at hl
          cases hl
        · rwa [Function.update_of_ne hli] at hl
    exact h.once (hline hj) (hline hk)

end Ledger

end Zoeax.Lib
