import Mathlib.Algebra.Order.Group.Nat

/-!
# Positions on a ring

Numbers less than one lap apart are told apart by their remainders.  With a
coarser unit `b` the same holds of the multiples of `b`: two of them less than
`m` units apart are equal when their unit counts agree modulo `m`.
-/

namespace Uvent.Lib.Lap

/-- Different positions less than a lap apart have different remainders. -/
theorem mod_ne_of_lt_lap {m a b : Nat} (hab : a < b) (hlap : b < a + m) : a % m ≠ b % m := by
  intro h
  have hsub : (b - a) % m = 0 := Nat.sub_mod_eq_zero_of_mod_eq h.symm
  rw [Nat.mod_eq_of_lt (by omega)] at hsub
  omega

theorem eq_of_mod_eq {m a b : Nat} (hle : a ≤ b) (hlap : b < a + m) (hmod : b % m = a % m) :
    b = a := by
  by_contra hne
  exact mod_ne_of_lt_lap (by omega) hlap hmod.symm

def floor (b x : Nat) : Nat := x / b * b

theorem floor_le (b x : Nat) : floor b x ≤ x := Nat.div_mul_le_self x b

theorem lt_floor_add {b : Nat} (hb : 0 < b) (x : Nat) : x < floor b x + b := by
  have hdiv := Nat.div_add_mod x b
  have hmod := Nat.mod_lt x hb
  rw [Nat.mul_comm] at hdiv
  unfold floor
  omega

@[simp] theorem floor_one (x : Nat) : floor 1 x = x := by simp [floor]

/-- A unit less than a lap after `n` that has `n`'s number modulo the lap starts at `n`. -/
theorem floor_eq_of_slot {b m n x : Nat} (hb : 0 < b) (hn : n % b = 0)
    (hslot : x / b % m = n / b % m) (hlow : n ≤ floor b x) (hhigh : floor b x < n + m * b) :
    floor b x = n := by
  have hnb : n = n / b * b := (Nat.div_mul_cancel (Nat.dvd_of_mod_eq_zero hn)).symm
  rw [hnb] at hlow hhigh
  have hle : n / b ≤ x / b := Nat.le_of_mul_le_mul_right hlow hb
  have hlt : x / b < n / b + m := by
    rw [← Nat.add_mul] at hhigh
    exact Nat.lt_of_mul_lt_mul_right hhigh
  have heq := eq_of_mod_eq hle hlt hslot
  unfold floor
  rw [heq]
  exact hnb.symm

theorem floor_ne_of_not_dvd {b n x : Nat} (hn : n % b ≠ 0) : floor b x ≠ n := by
  intro h
  apply hn
  rw [← h]
  exact Nat.mul_mod_left _ _

end Uvent.Lib.Lap
