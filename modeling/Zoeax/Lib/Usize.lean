import Mathlib.Data.Nat.Bitwise
import Mathlib.Tactic.Ring
import Mathlib.Tactic.NormNum

/-!
# Unsigned 64-bit arithmetic

Values are natural numbers below `2 ^ 64`. What an operation does when the exact result does not
fit depends on how the program is compiled (`Profile`): the checked build stops, the other one
wraps. An operation is `none` where the program stops.

The second half collects the bit arithmetic of packed words: masks and shifts read as remainder and
quotient, and a disjunction of disjoint fields as a sum.
-/

namespace Zoeax.Lib

/-- How integer overflow is compiled: checked, or wrapping. -/
inductive Profile where
  | debug
  | release
deriving DecidableEq, Repr

/-- Bitwise negation of a 64-bit value. -/
def notU64 (n : Nat) : Nat := 2 ^ 64 - 1 - n

namespace Profile

/-- The result of an operation whose exact value is `n`. -/
def wrap (p : Profile) (n : Nat) : Option Nat :=
  if n < 2 ^ 64 then some n
  else match p with
    | .debug => none
    | .release => some (n % 2 ^ 64)

def add (p : Profile) (a b : Nat) : Option Nat := p.wrap (a + b)

def mul (p : Profile) (a b : Nat) : Option Nat := p.wrap (a * b)

def pow (p : Profile) (a b : Nat) : Option Nat := p.wrap (a ^ b)

def sub (p : Profile) (a b : Nat) : Option Nat :=
  if b ≤ a then some (a - b)
  else match p with
    | .debug => none
    | .release => some (2 ^ 64 + a - b)

/-- A shift amount of 64 or more is an overflow; the wrapping build takes it modulo 64. -/
def shiftAmount (p : Profile) (n : Nat) : Option Nat :=
  if n < 64 then some n
  else match p with
    | .debug => none
    | .release => some (n % 64)

def shr (p : Profile) (a n : Nat) : Option Nat := (p.shiftAmount n).map (a >>> ·)

def shl (p : Profile) (a n : Nat) : Option Nat := (p.shiftAmount n).map fun n => a <<< n % 2 ^ 64

/-- The sum of two 32-bit values. -/
def add32 (p : Profile) (a b : UInt32) : Option UInt32 :=
  if a.toNat + b.toNat < 2 ^ 32 then some (a + b)
  else match p with
    | .debug => none
    | .release => some (a + b)

theorem wrap_of_lt (p : Profile) {n : Nat} (h : n < 2 ^ 64) : p.wrap n = some n := if_pos h

theorem wrap_eq_mod {p : Profile} {n m : Nat} (h : p.wrap n = some m) : m = n % 2 ^ 64 := by
  unfold wrap at h
  split at h
  · next hn =>
    obtain rfl := Option.some.inj h
    exact (Nat.mod_eq_of_lt hn).symm
  · cases p with
    | debug => cases h
    | release => exact (Option.some.inj h).symm

/-- The build does not stop at an operation whose exact value is `n`. -/
def Fits (p : Profile) (n : Nat) : Prop := p = .debug → n < 2 ^ 64

instance (p : Profile) (n : Nat) : Decidable (p.Fits n) :=
  inferInstanceAs (Decidable (p = .debug → n < 2 ^ 64))

theorem fits_of_lt (p : Profile) {n : Nat} (h : n < 2 ^ 64) : p.Fits n := fun _ => h

theorem Fits.mono {p : Profile} {m n : Nat} (h : p.Fits n) (hle : m ≤ n) : p.Fits m :=
  fun hp => lt_of_le_of_lt hle (h hp)

theorem wrap_of_fits {p : Profile} {n : Nat} (h : p.Fits n) : p.wrap n = some (n % 2 ^ 64) := by
  unfold wrap
  split
  · next hn => rw [Nat.mod_eq_of_lt hn]
  · next hn =>
    cases p with
    | debug => exact absurd (h rfl) hn
    | release => rfl

theorem wrap_of_not_fits {p : Profile} {n : Nat} (h : ¬p.Fits n) : p.wrap n = none := by
  cases p with
  | debug => exact if_neg fun hn => h fun _ => hn
  | release => exact absurd (fun hp => nomatch hp) h

theorem wrap_eq_some {p : Profile} {n m : Nat} :
    p.wrap n = some m ↔ p.Fits n ∧ n % 2 ^ 64 = m := by
  by_cases h : p.Fits n
  · rw [wrap_of_fits h, Option.some.injEq, and_iff_right h]
  · rw [wrap_of_not_fits h]
    exact ⟨fun h => (nomatch h), fun hm => absurd hm.1 h⟩

theorem sub_of_le (p : Profile) {a b : Nat} (h : b ≤ a) : p.sub a b = some (a - b) := if_pos h

theorem shiftAmount_of_lt (p : Profile) {n : Nat} (h : n < 64) : p.shiftAmount n = some n :=
  if_pos h

theorem shr_of_lt (p : Profile) {a n : Nat} (h : n < 64) : p.shr a n = some (a >>> n) := by
  rw [shr, p.shiftAmount_of_lt h]
  rfl

end Profile

/-! ## Masks, shifts and packed fields -/

/-- Clearing the low `k` bits of a 64-bit value. -/
theorem and_notU64_two_pow_sub_one {x k : Nat} (hx : x < 2 ^ 64) (hk : k ≤ 64) :
    x &&& notU64 (2 ^ k - 1) = x / 2 ^ k * 2 ^ k := by
  have hmask : notU64 (2 ^ k - 1) = (2 ^ (64 - k) - 1) <<< k := by
    have hpow : 2 ^ (64 - k) * 2 ^ k = 2 ^ 64 := by rw [← pow_add, Nat.sub_add_cancel hk]
    have hone : 1 ≤ 2 ^ k := Nat.one_le_two_pow
    rw [notU64, Nat.shiftLeft_eq, Nat.sub_mul, hpow]
    omega
  rw [hmask, ← Nat.shiftRight_eq_div_pow, ← Nat.shiftLeft_eq]
  refine Nat.eq_of_testBit_eq fun i => ?_
  simp only [Nat.testBit_and, Nat.testBit_shiftLeft, Nat.testBit_two_pow_sub_one,
    Nat.testBit_shiftRight]
  by_cases hi : k ≤ i
  · by_cases h64 : i < 64
    · simp [hi, show i - k < 64 - k by omega]
    · have hbit : x.testBit i = false :=
        Nat.testBit_lt_two_pow (lt_of_lt_of_le hx (Nat.pow_le_pow_right (by norm_num) (by omega)))
      simp [hbit, Nat.add_sub_of_le hi]
  · simp [hi]

/-- Setting the bits from `k` on keeps the low `k` bits. -/
theorem or_high_ones {x k n : Nat} (hx : x < 2 ^ n) (hkn : k ≤ n) :
    x ||| (2 ^ n - 2 ^ k) = x % 2 ^ k + (2 ^ n - 2 ^ k) := by
  have hmask : 2 ^ n - 2 ^ k = (2 ^ (n - k) - 1) <<< k := by
    rw [Nat.shiftLeft_eq, Nat.sub_mul, ← pow_add, Nat.sub_add_cancel hkn, one_mul]
  have hlt : x % 2 ^ k < 2 ^ k := Nat.mod_lt _ (by positivity)
  rw [hmask, Nat.add_comm, Nat.shiftLeft_add_eq_or_of_lt hlt]
  refine Nat.eq_of_testBit_eq fun i => ?_
  simp only [Nat.testBit_or, Nat.testBit_shiftLeft, Nat.testBit_two_pow_sub_one,
    Nat.testBit_mod_two_pow]
  by_cases hi : i < k
  · simp [hi, show ¬k ≤ i by omega]
  · by_cases h64 : i < n
    · simp [show k ≤ i by omega, show i - k < n - k by omega]
    · have hbit : x.testBit i = false :=
        Nat.testBit_lt_two_pow (lt_of_lt_of_le hx (Nat.pow_le_pow_right (by norm_num) (by omega)))
      simp [hi, hbit, show ¬i - k < n - k by omega]

/-- A field shifted above `b` and the bits of `b` below it: a sum. -/
theorem shiftLeft_or_of_lt {a b k : Nat} (hb : b < 2 ^ k) : a <<< k ||| b = a * 2 ^ k + b := by
  rw [← Nat.shiftLeft_add_eq_or_of_lt hb, Nat.shiftLeft_eq]

/-- Multiples of `2 ^ j` below `2 ^ n` are equal when they agree on the bits between. -/
theorem eq_of_testBit_between {x y j n : Nat} (hx : x % 2 ^ j = 0) (hy : y % 2 ^ j = 0)
    (hxn : x < 2 ^ n) (hyn : y < 2 ^ n)
    (h : ∀ i, j ≤ i → i < n → x.testBit i = y.testBit i) : x = y := by
  refine Nat.eq_of_testBit_eq fun i => ?_
  rcases Nat.lt_or_ge i j with hij | hij
  · have hlow : ∀ z, z % 2 ^ j = 0 → z.testBit i = false := fun z hz => by
      have hbit : (z % 2 ^ j).testBit i = z.testBit i := by
        rw [Nat.testBit_mod_two_pow, decide_eq_true hij, Bool.true_and]
      rw [← hbit, hz, Nat.zero_testBit]
    rw [hlow x hx, hlow y hy]
  · rcases Nat.lt_or_ge i n with hin | hin
    · exact h i hij hin
    · have hle : 2 ^ n ≤ 2 ^ i := Nat.pow_le_pow_right (by decide) hin
      rw [Nat.testBit_lt_two_pow (hxn.trans_le hle), Nat.testBit_lt_two_pow (hyn.trans_le hle)]

/-! ## Rounding up -/

/-- `a` rounded up to a multiple of `al`. -/
def roundUp (a al : Nat) : Nat := (a + al - 1) / al * al

/-- Clearing low bits and wrapping commute. -/
theorem mod_div_mul_two_pow {x j n : Nat} (hj : j ≤ n) :
    x % 2 ^ n / 2 ^ j * 2 ^ j = x / 2 ^ j * 2 ^ j % 2 ^ n := by
  obtain ⟨m, rfl⟩ := Nat.exists_eq_add_of_le hj
  rw [pow_add, Nat.mod_mul_right_div_self, Nat.mul_comm (2 ^ j) (2 ^ m), Nat.mul_mod_mul_right]

theorem le_roundUp {a al : Nat} (hal : 0 < al) : a ≤ roundUp a al := by
  have hmod := Nat.div_add_mod (a + al - 1) al
  have hlt := Nat.mod_lt (a + al - 1) hal
  rw [Nat.mul_comm] at hmod
  unfold roundUp
  omega

theorem roundUp_add_of_dvd {a b al : Nat} (hal : 0 < al) (h : al ∣ b) :
    roundUp (a + b) al = roundUp a al + b := by
  obtain ⟨m, rfl⟩ := h
  have hshift : a + al * m + al - 1 = a + al - 1 + m * al := by
    rw [Nat.mul_comm m al]
    omega
  rw [roundUp, roundUp, hshift, Nat.add_mul_div_right _ _ hal, Nat.add_mul, Nat.mul_comm m al]

end Zoeax.Lib
