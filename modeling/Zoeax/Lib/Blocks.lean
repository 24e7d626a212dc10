import Mathlib.Algebra.Order.BigOperators.Group.List
import Mathlib.Algebra.Order.Group.Nat
import Mathlib.Data.Nat.Log
import Mathlib.Algebra.GroupWithZero.Nat

/-!
# Blocks of decreasing powers of two

`blocks least n` cuts a length `n` into powers of two, the largest first, until no more than `least`
is left over. The blocks are strictly decreasing (`pairwise_blocks`), they cover the length up to
`least` (`sum_blocks_le`, `le_sum_blocks`), and there is at most one for every power of two between
a divisor of the length and the length (`length_blocks_le`).
-/

namespace Zoeax.Lib

/-- The largest power of two that fits, and then the blocks of the rest, while more than `least` is
left. -/
def blocks (least n : Nat) : List Nat :=
  if n ≤ least then [] else 2 ^ n.log2 :: blocks least (n - 2 ^ n.log2)
termination_by n
decreasing_by
  have := Nat.two_pow_pos n.log2
  omega

variable {least n : Nat}

theorem blocks_of_le (h : n ≤ least) : blocks least n = [] := by
  rw [blocks, if_pos h]

theorem blocks_of_lt (h : least < n) :
    blocks least n = 2 ^ n.log2 :: blocks least (n - 2 ^ n.log2) := by
  rw [blocks, if_neg (Nat.not_le.2 h)]

theorem two_pow_log2_le (h : least < n) : 2 ^ n.log2 ≤ n := Nat.log2_self_le (by omega)

/-- What is left over is less than the block. -/
theorem sub_two_pow_log2_lt (n : Nat) : n - 2 ^ n.log2 < 2 ^ n.log2 := by
  have hlt : n < 2 ^ (n.log2 + 1) := Nat.lt_log2_self
  have hpos := Nat.two_pow_pos n.log2
  rw [Nat.pow_succ] at hlt
  omega

theorem sum_blocks_le (least n : Nat) : (blocks least n).sum ≤ n := by
  induction n using Nat.strong_induction_on with
  | _ n ih =>
    rcases le_or_gt n least with h | h
    · rw [blocks_of_le h]
      exact Nat.zero_le n
    · have hle := two_pow_log2_le h
      have hpos := Nat.two_pow_pos n.log2
      have hrest := ih (n - 2 ^ n.log2) (by omega)
      rw [blocks_of_lt h, List.sum_cons]
      omega

theorem le_sum_blocks (least n : Nat) : n ≤ (blocks least n).sum + least := by
  induction n using Nat.strong_induction_on with
  | _ n ih =>
    rcases le_or_gt n least with h | h
    · omega
    · have hpos := Nat.two_pow_pos n.log2
      have hrest := ih (n - 2 ^ n.log2) (by omega)
      rw [blocks_of_lt h, List.sum_cons]
      omega

theorem le_of_mem_blocks {b : Nat} (hb : b ∈ blocks least n) : b ≤ n :=
  (List.single_le_sum (fun _ _ => Nat.zero_le _) b hb).trans (sum_blocks_le least n)

/-- A block is a power of two, and one that divides the length divides it too. -/
theorem exists_of_mem_blocks {j b : Nat} (hn : 2 ^ j ∣ n) (hb : b ∈ blocks least n) :
    ∃ k ≥ j, b = 2 ^ k := by
  induction n using Nat.strong_induction_on with
  | _ n ih =>
    rcases le_or_gt n least with h | h
    · rw [blocks_of_le h] at hb
      cases hb
    · have hpos := Nat.two_pow_pos n.log2
      have hj : j ≤ n.log2 := (Nat.le_log2 (by omega)).2 (Nat.le_of_dvd (by omega) hn)
      rw [blocks_of_lt h, List.mem_cons] at hb
      rcases hb with rfl | hb
      · exact ⟨n.log2, hj, rfl⟩
      · exact ih _ (by omega) (Nat.dvd_sub hn (pow_dvd_pow 2 hj)) hb

theorem pairwise_blocks (least n : Nat) : (blocks least n).Pairwise (· > ·) := by
  induction n using Nat.strong_induction_on with
  | _ n ih =>
    rcases le_or_gt n least with h | h
    · rw [blocks_of_le h]
      exact .nil
    · have hpos := Nat.two_pow_pos n.log2
      rw [blocks_of_lt h]
      refine .cons (fun b hb => ?_) (ih _ (by omega))
      exact (le_of_mem_blocks hb).trans_lt (sub_two_pow_log2_lt n)

theorem length_blocks_le {j m : Nat} (hdvd : 2 ^ j ∣ n) (hn : n < 2 ^ (j + m)) :
    (blocks least n).length ≤ m := by
  induction n using Nat.strong_induction_on generalizing m with
  | _ n ih =>
    rcases le_or_gt n least with h | h
    · rw [blocks_of_le h]
      exact Nat.zero_le m
    · have hpos := Nat.two_pow_pos n.log2
      have hj : j ≤ n.log2 := (Nat.le_log2 (by omega)).2 (Nat.le_of_dvd (by omega) hdvd)
      have hm : n.log2 < j + m := (Nat.log2_lt (by omega)).2 hn
      have hrest : n - 2 ^ n.log2 < 2 ^ (j + (n.log2 - j)) := by
        rw [Nat.add_sub_cancel' hj]
        exact sub_two_pow_log2_lt n
      have := ih _ (by omega) (Nat.dvd_sub hdvd (pow_dvd_pow 2 hj)) hrest
      rw [blocks_of_lt h, List.length_cons]
      omega

end Zoeax.Lib
