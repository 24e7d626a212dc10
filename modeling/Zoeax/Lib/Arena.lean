import Mathlib.Data.List.Basic
import Mathlib.Logic.Function.Basic
import Mathlib.Logic.Relation

/-!
# Pools of memory

Memory is given out from pools, each from its beginning to its end, and never comes back. An `Arena`
has the pools and the pieces that are in use, whoever uses them; `Takes` is the only step.

- `Sound.takes`: the pools stay apart, and the pieces stay apart from each other and from what is
  free;
- `Spent.of_run`: in a run no pool is lost or moved, its free part only gets smaller, and every new
  piece lies in what became used of some pool.
-/

namespace Zoeax.Lib

open Function (update)

/-- Memory from `base` to `stop`, used up to `free`. -/
structure MemPool where
  base : Nat
  free : Nat
  stop : Nat

/-- The memory from `start` to `stop`. -/
structure Piece where
  start : Nat
  stop : Nat

def Piece.Apart (a b : Piece) : Prop := a.stop ≤ b.start ∨ b.stop ≤ a.start

structure Arena (ι : Type) where
  pool : ι → Option MemPool
  pieces : List Piece

namespace Arena

variable {ι : Type} [DecidableEq ι] {x y z : Arena ι} {lo hi : Nat}

/-- One pool is used up to `free`, with new pieces in what was free of it before. -/
inductive Takes (x : Arena ι) : Arena ι → Prop
  | intro {i : ι} {p : MemPool} {free : Nat} {new : List Piece} (hpool : x.pool i = some p)
      (hle : p.free ≤ free) (hstop : free ≤ p.stop)
      (hnew : ∀ a ∈ new, p.free ≤ a.start ∧ a.stop ≤ free) (hapart : new.Pairwise Piece.Apart) :
      Takes x ⟨update x.pool i (some { p with free := free }), new ++ x.pieces⟩

/-! ## Soundness -/

/-- The pools lie between `lo` and `hi`, apart from each other, and no piece reaches into what is
free of a pool or into another piece. -/
structure Sound (lo hi : Nat) (x : Arena ι) : Prop where
  pools : ∀ i p, x.pool i = some p → lo ≤ p.base ∧ p.base ≤ p.free ∧ p.free ≤ p.stop ∧ p.stop ≤ hi
  free : ∀ i p, x.pool i = some p → ∀ a ∈ x.pieces, a.stop ≤ p.free ∨ p.stop ≤ a.start
  apart : ∀ i j p q, x.pool i = some p → x.pool j = some q → i ≠ j →
    p.stop ≤ q.base ∨ q.stop ≤ p.base
  pieces : x.pieces.Pairwise Piece.Apart

/-- A pool after one of them was written. -/
theorem update_cases {i j : ι} {p q : MemPool} (h : update x.pool i (some p) j = some q) :
    j = i ∧ q = p ∨ j ≠ i ∧ x.pool j = some q := by
  by_cases hj : j = i
  · subst hj
    rw [Function.update_self] at h
    exact .inl ⟨rfl, (Option.some.inj h).symm⟩
  · rw [Function.update_of_ne hj] at h
    exact .inr ⟨hj, h⟩

theorem Sound.takes (h : Sound lo hi x) (ht : Takes x y) : Sound lo hi y := by
  cases ht with
  | @intro i p free new hpool hle hstop hnew hapart =>
    have hp := h.pools i p hpool
    refine ⟨?_, ?_, ?_, ?_⟩
    · intro j q hq
      rcases update_cases hq with ⟨rfl, rfl⟩ | ⟨-, hq⟩
      · dsimp only
        omega
      · exact h.pools j q hq
    · intro j q hq a ha
      rcases List.mem_append.1 ha with hmem | hmem
      · have hin := hnew a hmem
        rcases update_cases hq with ⟨rfl, rfl⟩ | ⟨hj, hq⟩
        · exact .inl hin.2
        · -- a new piece is in its own pool, and the other ones are elsewhere
          have hq' := h.pools j q hq
          have := h.apart j i q p hq hpool hj
          omega
      · rcases update_cases hq with ⟨rfl, rfl⟩ | ⟨-, hq⟩
        · exact (h.free j p hpool a hmem).imp_left fun hlt => Nat.le_trans hlt hle
        · exact h.free j q hq a hmem
    · intro j k q r hq hr hne
      rcases update_cases hq with ⟨rfl, rfl⟩ | ⟨-, hq'⟩
      · rcases update_cases hr with ⟨rfl, rfl⟩ | ⟨-, hr'⟩
        · exact absurd rfl hne
        · exact h.apart j k p r hpool hr' hne
      · rcases update_cases hr with ⟨rfl, rfl⟩ | ⟨-, hr'⟩
        · exact h.apart j k q p hq' hpool hne
        · exact h.apart j k q r hq' hr' hne
    · refine List.pairwise_append.2 ⟨hapart, h.pieces, ?_⟩
      intro a ha b hb
      have hin := hnew a ha
      have := h.free i p hpool b hb
      rw [Piece.Apart]
      omega

/-! ## Runs -/

/-- What became of the memory from `x` to `y`. -/
structure Spent (x y : Arena ι) : Prop where
  kept : ∀ i p, x.pool i = some p →
    ∃ q, y.pool i = some q ∧ q.base = p.base ∧ q.stop = p.stop ∧ p.free ≤ q.free
  only : ∀ i q, y.pool i = some q → ∃ p, x.pool i = some p
  pieces : x.pieces ⊆ y.pieces
  new : ∀ a ∈ y.pieces, a ∈ x.pieces ∨ ∃ i p q, x.pool i = some p ∧ y.pool i = some q ∧
    p.free ≤ a.start ∧ a.stop ≤ q.free

omit [DecidableEq ι] in
theorem Spent.rfl : Spent x x where
  kept _ p hp := ⟨p, hp, Eq.refl _, Eq.refl _, Nat.le_refl _⟩
  only _ q hq := ⟨q, hq⟩
  pieces := List.Subset.refl _
  new _ ha := .inl ha

theorem Spent.of_takes (h : Takes x y) : Spent x y := by
  cases h with
  | @intro i p free new hpool hle hstop hnew hapart =>
    have hself : update x.pool i (some { p with free := free }) i = some { p with free := free } :=
      Function.update_self ..
    refine ⟨?_, ?_, List.subset_append_right .., ?_⟩
    · intro j q hq
      by_cases hj : j = i
      · subst hj
        obtain rfl : p = q := Option.some.inj (hpool.symm.trans hq)
        exact ⟨_, hself, Eq.refl _, Eq.refl _, hle⟩
      · exact ⟨q, (Function.update_of_ne hj ..).trans hq, Eq.refl _, Eq.refl _, Nat.le_refl _⟩
    · intro j q hq
      rcases update_cases hq with ⟨hj, -⟩ | ⟨-, hq⟩
      · exact ⟨p, hj ▸ hpool⟩
      · exact ⟨q, hq⟩
    · intro a ha
      rcases List.mem_append.1 ha with ha | ha
      · exact .inr ⟨i, p, _, hpool, hself, hnew a ha⟩
      · exact .inl ha

omit [DecidableEq ι] in
theorem Spent.trans (h : Spent x y) (h' : Spent y z) : Spent x z where
  kept i p hp := by
    obtain ⟨q, hq, hbase, hstop, hle⟩ := h.kept i p hp
    obtain ⟨r, hr, hbase', hstop', hle'⟩ := h'.kept i q hq
    exact ⟨r, hr, hbase'.trans hbase, hstop'.trans hstop, Nat.le_trans hle hle'⟩
  only i r hr := by
    obtain ⟨q, hq⟩ := h'.only i r hr
    exact h.only i q hq
  pieces := List.Subset.trans h.pieces h'.pieces
  new a ha := by
    rcases h'.new a ha with ha | ⟨i, q, r, hq, hr, hlo, hhi⟩
    · refine (h.new a ha).imp_right ?_
      rintro ⟨i, p, q, hp, hq, hlo, hhi⟩
      obtain ⟨r, hr, -, -, hle⟩ := h'.kept i q hq
      exact ⟨i, p, r, hp, hr, hlo, Nat.le_trans hhi hle⟩
    · obtain ⟨p, hp⟩ := h.only i q hq
      obtain ⟨q', hq', -, -, hle⟩ := h.kept i p hp
      obtain rfl : q = q' := Option.some.inj (hq.symm.trans hq')
      exact .inr ⟨i, p, r, hp, hr, Nat.le_trans hle hlo, hhi⟩

theorem Spent.of_run (h : Relation.ReflTransGen Takes x y) : Spent x y := by
  induction h with
  | refl => exact .rfl
  | tail _ htakes ih => exact ih.trans (.of_takes htakes)

end Arena

end Zoeax.Lib
