import Mathlib.Algebra.Group.Nat.Defs
import Mathlib.Data.Nat.Init

/-!
# Levels of the lock-free vector

The elements of `LockFreeVector` are in buckets of `1, 2, 4, …` cells.  `locate` finds the bucket
of an index and the place in it.
-/

namespace Uvent.LockFreeVector

def pow2 (e : Nat) : Nat := if 64 ≤ e then 2 ^ 63 else 2 ^ e

/-- The leading zeros of a word; 64 of them if it is zero. -/
def clz64 (x : BitVec 64) : Nat := x.clz.toNat

def locate (index : Nat) : Nat × Nat :=
  let L := if index = 0 then 0 else 63 - clz64 (BitVec.ofNat 64 (index + 1))
  let base := pow2 L - 1
  (L, index - base)

abbrev level (index : Nat) : Nat := (locate index).1

abbrev offset (index : Nat) : Nat := (locate index).2

variable {i j : Nat}

theorem clz64_bounds {x : Nat} (hpos : 0 < x) (hx : x < 2 ^ 64) :
    clz64 (BitVec.ofNat 64 x) ≤ 63 ∧ 2 ^ (63 - clz64 (BitVec.ofNat 64 x)) ≤ x ∧
      x < 2 ^ (64 - clz64 (BitVec.ofNat 64 x)) := by
  have hnat : (BitVec.ofNat 64 x).toNat = x := by
    rw [BitVec.toNat_ofNat, Nat.mod_eq_of_lt hx]
  have hne : BitVec.ofNat 64 x ≠ 0#64 := by
    intro heq
    rw [heq] at hnat
    exact absurd hnat (Nat.ne_of_lt hpos)
  have hlt := BitVec.clz_lt_iff_ne_zero.mpr hne
  have hle : clz64 (BitVec.ofNat 64 x) ≤ 63 := Nat.le_of_lt_succ hlt
  have hlow := BitVec.two_pow_sub_clz_le_toNat_of_ne_zero (by decide) hne
  have hhigh := BitVec.toNat_lt_two_pow_sub_clz (x := BitVec.ofNat 64 x)
  rw [hnat] at hlow hhigh
  exact ⟨hle, hlow, hhigh⟩

/-- A level starts after the cells of those below it, and is as long as all of them and one. -/
theorem level_bounds (hi : i + 1 < 2 ^ 64) :
    level i ≤ 63 ∧ 2 ^ level i ≤ i + 1 ∧ i + 1 < 2 ^ (level i + 1) := by
  by_cases hzero : i = 0
  · subst hzero
    exact ⟨Nat.zero_le _, Nat.le_refl _, by decide⟩
  · obtain ⟨hle, hlow, hhigh⟩ := clz64_bounds (x := i + 1) (Nat.succ_pos i) hi
    have hlevel : level i = 63 - clz64 (BitVec.ofNat 64 (i + 1)) := if_neg hzero
    have hnext : 63 - clz64 (BitVec.ofNat 64 (i + 1)) + 1 =
        64 - clz64 (BitVec.ofNat 64 (i + 1)) := by omega
    rw [hlevel, hnext]
    exact ⟨Nat.sub_le _ _, hlow, hhigh⟩

theorem pow2_level (hi : i + 1 < 2 ^ 64) : pow2 (level i) = 2 ^ level i := by
  have hle := (level_bounds hi).1
  exact if_neg (by omega)

theorem offset_eq (hi : i + 1 < 2 ^ 64) : offset i + 2 ^ level i = i + 1 := by
  have hlow := (level_bounds hi).2.1
  have hpos : 0 < 2 ^ level i := Nat.two_pow_pos _
  have hoffset : offset i = i - (2 ^ level i - 1) := by
    rw [← pow2_level hi]
    rfl
  omega

theorem offset_lt (hi : i + 1 < 2 ^ 64) : offset i < pow2 (level i) := by
  have hhigh := (level_bounds hi).2.2
  have hoffset := offset_eq hi
  rw [Nat.pow_succ] at hhigh
  rw [pow2_level hi]
  omega

theorem locate_inj (hi : i + 1 < 2 ^ 64) (hj : j + 1 < 2 ^ 64) (h : locate i = locate j) :
    i = j := by
  have hlevel : level i = level j := congrArg Prod.fst h
  have hoffset : offset i = offset j := congrArg Prod.snd h
  have heqi := offset_eq hi
  have heqj := offset_eq hj
  rw [hlevel, hoffset] at heqi
  omega

end Uvent.LockFreeVector
