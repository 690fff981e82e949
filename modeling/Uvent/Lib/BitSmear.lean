import Mathlib.Data.Nat.Bitwise
import Mathlib.Data.Nat.Log

/-!
# Smearing the top bit of a word

The usual rounding up to a power of two copies the highest set bit into every
lower position by or-ing the word with shifted copies of itself.  A word of bit
length `L` whose top `k` bits are already set has its top `k + j` bits set after
`x ||| (x >>> j)`, for any `j ≤ k`.
-/

namespace Uvent.Lib.BitSmear

/-- `x` has bit length at most `L` and its bits from `L - k` to `L - 1` are set. -/
def TopOnes (L k x : Nat) : Prop :=
  (∀ i, L ≤ i → x.testBit i = false) ∧ ∀ i, L ≤ i + k → i < L → x.testBit i = true

theorem topOnes_log2 {x : Nat} (hx : x ≠ 0) : TopOnes (x.log2 + 1) 1 x := by
  constructor
  · intro i hi
    apply Nat.testBit_lt_two_pow
    exact lt_of_lt_of_le Nat.lt_log2_self (Nat.pow_le_pow_right (by decide) hi)
  · intro i hlow hhigh
    have hi : i = x.log2 := by omega
    subst hi
    exact Nat.testBit_log2 hx

theorem TopOnes.orShift {L k x : Nat} (h : TopOnes L k x) {j : Nat} (hj : j ≤ k) :
    TopOnes L (k + j) (x ||| (x >>> j)) := by
  constructor
  · intro i hi
    rw [Nat.testBit_or, Nat.testBit_shiftRight, h.1 i hi, h.1 (j + i) (by omega)]
    rfl
  · intro i hlow hhigh
    rw [Nat.testBit_or, Nat.testBit_shiftRight]
    by_cases hk : L ≤ i + k
    · rw [h.2 i hk hhigh, Bool.true_or]
    · rw [h.2 (j + i) (by omega) (by omega), Bool.or_true]

/-- A fully smeared word is one less than a power of two. -/
theorem TopOnes.eq_two_pow_sub_one {L k x : Nat} (h : TopOnes L k x) (hk : L ≤ k) :
    x = 2 ^ L - 1 := by
  apply Nat.eq_of_testBit_eq
  intro i
  rw [Nat.testBit_two_pow_sub_one]
  by_cases hi : i < L
  · rw [h.2 i (by omega) hi, decide_eq_true hi]
  · rw [h.1 i (by omega), decide_eq_false hi]

end Uvent.Lib.BitSmear
