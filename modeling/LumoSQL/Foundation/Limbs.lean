import Mathlib.Data.Nat.Bitwise

/-!
# Bit operations limb by limb

A number cut at bit `k` is `x * 2 ^ k + y` with `y < 2 ^ k`. The bitwise operations work on the two
limbs apart (`or_limb`, `and_limb`), and a disjunction with a number below the cut is a sum
(`or_low`). Code that packs fields into a word with shifts, masks and disjunctions becomes
arithmetic under these rules.
-/

namespace LumoSQL.Foundation

variable {k x y u v : ℕ}

/-- Below the cut, disjunction is addition. -/
theorem or_low (x : ℕ) (hy : y < 2 ^ k) : x * 2 ^ k ||| y = x * 2 ^ k + y := by
  rw [← Nat.shiftLeft_eq, Nat.shiftLeft_add_eq_or_of_lt hy]

theorem or_limb (x u : ℕ) (hy : y < 2 ^ k) (hv : v < 2 ^ k) :
    (x * 2 ^ k + y) ||| (u * 2 ^ k + v) = (x ||| u) * 2 ^ k + (y ||| v) := by
  rw [← or_low x hy, ← or_low u hv, ← or_low (x ||| u) (Nat.or_lt_two_pow hy hv)]
  simp only [← Nat.shiftLeft_eq, Nat.shiftLeft_or_distrib]
  rw [Nat.or_assoc, Nat.or_assoc]
  congr 1
  rw [← Nat.or_assoc, Nat.or_comm y, Nat.or_assoc]

theorem and_limb (x u : ℕ) (hy : y < 2 ^ k) (hv : v < 2 ^ k) :
    (x * 2 ^ k + y) &&& (u * 2 ^ k + v) = (x &&& u) * 2 ^ k + (y &&& v) := by
  have hand : y &&& v < 2 ^ k := Nat.and_lt_two_pow y hv
  rw [← or_low x hy, ← or_low u hv, ← or_low (x &&& u) hand]
  simp only [← Nat.shiftLeft_eq]
  refine Nat.eq_of_testBit_eq fun i ↦ ?_
  simp only [Nat.testBit_and, Nat.testBit_or, Nat.testBit_shiftLeft]
  by_cases hi : k ≤ i
  · have hpow : (2 : ℕ) ^ k ≤ 2 ^ i := Nat.pow_le_pow_right (by omega) hi
    rw [Nat.testBit_lt_two_pow (hy.trans_le hpow), Nat.testBit_lt_two_pow (hv.trans_le hpow)]
    simp [hi]
  · simp [hi]

/-- A mask of the low `k` bits takes the remainder. -/
theorem and_mask (x k : ℕ) : x &&& (2 ^ k - 1) = x % 2 ^ k := Nat.and_two_pow_sub_one_eq_mod x k

end LumoSQL.Foundation
