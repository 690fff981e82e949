import Mathlib.Data.Nat.Bitwise
import Mathlib.Tactic.Ring

/-!
# Fields packed into one machine word

A word holds several fields, each a contiguous run of bits.  Two words agree
outside a mask when the mask's bits are the only ones in which they may differ.
Bitwise updates stay inside the mask they are given; a raw addition to a field
stays inside it exactly when the field does not carry out.
-/

namespace Uvent.Lib.BitField

variable {w : Nat}

/-- The bits `[k, k + n)` of a word. -/
def fieldMask (w k n : Nat) : BitVec w := BitVec.ofNat w ((2 ^ n - 1) * 2 ^ k)

def SameOutside (m a b : BitVec w) : Prop := a &&& ~~~m = b &&& ~~~m

/-- The value of the field `[k, k + n)`. -/
def field (a : BitVec w) (k n : Nat) : Nat := a.toNat / 2 ^ k % 2 ^ n

instance (m a b : BitVec w) : Decidable (SameOutside m a b) :=
  inferInstanceAs (Decidable (a &&& ~~~m = b &&& ~~~m))

theorem field_lt (a : BitVec w) (k n : Nat) : field a k n < 2 ^ n :=
  Nat.mod_lt _ (Nat.two_pow_pos n)

theorem SameOutside.refl (m a : BitVec w) : SameOutside m a a := rfl

theorem sameOutside_iff_getLsbD {m a b : BitVec w} :
    SameOutside m a b ↔
      ∀ i < w, m.getLsbD i = false → a.getLsbD i = b.getLsbD i := by
  constructor
  · intro h i hi hm
    have hbit := congrArg (fun v => BitVec.getLsbD v i) h
    simp only [BitVec.getLsbD_and, BitVec.getLsbD_not, hm, hi, decide_true, Bool.not_false,
      Bool.and_true] at hbit
    exact hbit
  · intro h
    apply BitVec.eq_of_getLsbD_eq
    intro i hi
    simp only [BitVec.getLsbD_and, BitVec.getLsbD_not]
    cases hm : m.getLsbD i with
    | false => rw [h i hi hm]
    | true => simp

theorem sameOutside_or (m a : BitVec w) : SameOutside m a (a ||| m) := by
  rw [sameOutside_iff_getLsbD]
  intro i _ hm
  simp [hm]

theorem sameOutside_and_not (m a : BitVec w) : SameOutside m a (a &&& ~~~m) := by
  rw [sameOutside_iff_getLsbD]
  intro i hi hm
  simp only [BitVec.getLsbD_and, BitVec.getLsbD_not, hm, hi, decide_true, Bool.not_false,
    Bool.and_true]

/-! ## Contiguous fields -/

theorem getLsbD_fieldMask (k n i : Nat) :
    (fieldMask w k n).getLsbD i = (decide (i < w) && decide (k ≤ i ∧ i < k + n)) := by
  rw [fieldMask, BitVec.getLsbD_ofNat, Nat.testBit_mul_two_pow,
    Nat.testBit_two_pow_sub_one]
  by_cases hk : k ≤ i
  · by_cases hn : i < k + n
    · simp [hk, hn, show i - k < n by omega]
    · simp [hk, hn, show ¬i - k < n by omega]
  · simp [hk]

/-- Agreement outside a field, read as arithmetic: the bits below it and the
bits above it are the same. -/
theorem sameOutside_fieldMask_iff {k n : Nat} {a b : BitVec w} :
    SameOutside (fieldMask w k n) a b ↔
      a.toNat % 2 ^ k = b.toNat % 2 ^ k ∧
        a.toNat / 2 ^ (k + n) = b.toNat / 2 ^ (k + n) := by
  rw [sameOutside_iff_getLsbD]
  constructor
  · intro h
    have hbit : ∀ i, ¬(k ≤ i ∧ i < k + n) → a.toNat.testBit i = b.toNat.testBit i := by
      intro i hout
      by_cases hi : i < w
      · have hm : (fieldMask w k n).getLsbD i = false := by
          rw [getLsbD_fieldMask]; simp [hout]
        exact h i hi hm
      · change a.getLsbD i = b.getLsbD i
        rw [BitVec.getLsbD_of_ge a i (by omega), BitVec.getLsbD_of_ge b i (by omega)]
    constructor
    · apply Nat.eq_of_testBit_eq
      intro i
      rw [Nat.testBit_mod_two_pow, Nat.testBit_mod_two_pow]
      by_cases hi : i < k
      · rw [hbit i (by omega)]
      · simp [hi]
    · apply Nat.eq_of_testBit_eq
      intro i
      rw [Nat.testBit_div_two_pow, Nat.testBit_div_two_pow]
      exact hbit _ (by omega)
  · rintro ⟨hlow, hhigh⟩ i hi hm
    have hout : ¬(k ≤ i ∧ i < k + n) := by
      rw [getLsbD_fieldMask] at hm
      simpa [hi] using hm
    change a.toNat.testBit i = b.toNat.testBit i
    by_cases hk : i < k
    · have hbit := congrArg (fun x => Nat.testBit x i) hlow
      simpa [Nat.testBit_mod_two_pow, hk] using hbit
    · have hbit := congrArg (fun x => Nat.testBit x (i - (k + n))) hhigh
      simp only [Nat.testBit_div_two_pow] at hbit
      rwa [show i - (k + n) + (k + n) = i by omega] at hbit

/-- Words that agree outside a mask disjoint from a field have the same value
in that field. -/
theorem field_eq_of_sameOutside {m a b : BitVec w} {k n : Nat}
    (h : SameOutside m a b) (hdisj : ∀ i, k ≤ i → i < k + n → m.getLsbD i = false) :
    field a k n = field b k n := by
  rw [sameOutside_iff_getLsbD] at h
  apply Nat.eq_of_testBit_eq
  intro i
  rw [field, field, Nat.testBit_mod_two_pow, Nat.testBit_mod_two_pow,
    Nat.testBit_div_two_pow, Nat.testBit_div_two_pow]
  by_cases hi : i < n
  · by_cases hw : i + k < w
    · have hbit := h (i + k) hw (hdisj (i + k) (by omega) (by omega))
      change (_ && a.getLsbD (i + k)) = (_ && b.getLsbD (i + k))
      rw [hbit]
    · change (_ && a.getLsbD (i + k)) = (_ && b.getLsbD (i + k))
      rw [BitVec.getLsbD_of_ge a _ (by omega), BitVec.getLsbD_of_ge b _ (by omega)]
  · simp [hi]

/-! ## Raw additions to a field -/

/-- A word split at a field: low part, field, high part. -/
theorem toNat_eq_field (a : BitVec w) (k n : Nat) :
    a.toNat = a.toNat % 2 ^ k + 2 ^ k * (field a k n + 2 ^ n * (a.toNat / 2 ^ (k + n))) := by
  have hlow := Nat.mod_add_div a.toNat (2 ^ k)
  have hhigh := Nat.mod_add_div (a.toNat / 2 ^ k) (2 ^ n)
  rw [Nat.div_div_eq_div_mul, ← Nat.pow_add] at hhigh
  rw [field, hhigh, hlow]

/-- Replacing the field of a word leaves the parts around it alone. -/
theorem split_unique {k n low f high : Nat} (hlow : low < 2 ^ k) (hf : f < 2 ^ n) :
    (low + 2 ^ k * (f + 2 ^ n * high)) % 2 ^ k = low ∧
      (low + 2 ^ k * (f + 2 ^ n * high)) / 2 ^ k % 2 ^ n = f ∧
      (low + 2 ^ k * (f + 2 ^ n * high)) / 2 ^ (k + n) = high := by
  have hk : 0 < 2 ^ k := Nat.two_pow_pos k
  have hn : 0 < 2 ^ n := Nat.two_pow_pos n
  have hdiv : (low + 2 ^ k * (f + 2 ^ n * high)) / 2 ^ k = f + 2 ^ n * high := by
    rw [Nat.add_mul_div_left _ _ hk, Nat.div_eq_of_lt hlow, Nat.zero_add]
  refine ⟨?_, ?_, ?_⟩
  · rw [Nat.add_mul_mod_self_left, Nat.mod_eq_of_lt hlow]
  · rw [hdiv, Nat.add_mul_mod_self_left, Nat.mod_eq_of_lt hf]
  · rw [Nat.pow_add, ← Nat.div_div_eq_div_mul, hdiv, Nat.add_mul_div_left _ _ hn,
      Nat.div_eq_of_lt hf, Nat.zero_add]

theorem field_of_toNat_eq {k n f : Nat} {a b : BitVec w} (hf : f < 2 ^ n)
    (hb : b.toNat = a.toNat % 2 ^ k + 2 ^ k * (f + 2 ^ n * (a.toNat / 2 ^ (k + n)))) :
    SameOutside (fieldMask w k n) a b ∧ field b k n = f := by
  have hlow : a.toNat % 2 ^ k < 2 ^ k := Nat.mod_lt _ (Nat.two_pow_pos k)
  obtain ⟨h1, h2, h3⟩ := @split_unique k n _ f (a.toNat / 2 ^ (k + n)) hlow hf
  rw [← hb] at h1 h2 h3
  exact ⟨sameOutside_fieldMask_iff.mpr ⟨h1.symm, h3.symm⟩, h2⟩

theorem add_unit_of_lt {k n : Nat} {a : BitVec w} (hkn : k + n ≤ w)
    (h : field a k n < 2 ^ n - 1) :
    SameOutside (fieldMask w k n) a (a + BitVec.ofNat w (2 ^ k)) ∧
      field (a + BitVec.ofNat w (2 ^ k)) k n = field a k n + 1 := by
  have hsplit := toNat_eq_field a k n
  set f := field a k n with hf
  set high := a.toNat / 2 ^ (k + n) with hhigh
  have hlow : a.toNat % 2 ^ k < 2 ^ k := Nat.mod_lt _ (Nat.two_pow_pos k)
  have hn : 1 ≤ n := by
    rcases Nat.eq_zero_or_pos n with h0 | h0
    · subst h0; simp at h
    · exact h0
  have hk : 2 ^ k < 2 ^ w := Nat.pow_lt_pow_right (by omega) (by omega)
  have hstep : a.toNat + 2 ^ k =
      a.toNat % 2 ^ k + 2 ^ k * (f + 1 + 2 ^ n * high) := by
    have hring : 2 ^ k * (f + 1 + 2 ^ n * high) = 2 ^ k * (f + 2 ^ n * high) + 2 ^ k := by
      ring
    omega
  have hbound : a.toNat + 2 ^ k < 2 ^ w := by
    have hpow : 2 ^ w = 2 ^ k * (2 ^ n * 2 ^ (w - (k + n))) := by
      rw [← Nat.pow_add, ← Nat.pow_add]; congr 1; omega
    have hhighlt : high < 2 ^ (w - (k + n)) := by
      rw [hhigh]
      apply Nat.div_lt_of_lt_mul
      rw [← Nat.pow_add, show k + n + (w - (k + n)) = w by omega]
      exact a.isLt
    have hmul : 2 ^ n * (high + 1) ≤ 2 ^ n * 2 ^ (w - (k + n)) :=
      Nat.mul_le_mul_left _ hhighlt
    have hinner : f + 1 + 2 ^ n * high + 1 ≤ 2 ^ n * 2 ^ (w - (k + n)) := by
      rw [Nat.mul_add, Nat.mul_one] at hmul
      omega
    have houter := Nat.mul_le_mul_left (2 ^ k) hinner
    rw [← hpow, Nat.mul_add, Nat.mul_one] at houter
    omega
  have htoNat : (a + BitVec.ofNat w (2 ^ k)).toNat = a.toNat + 2 ^ k := by
    rw [BitVec.toNat_add, BitVec.toNat_ofNat, Nat.mod_eq_of_lt hk, Nat.mod_eq_of_lt hbound]
  exact field_of_toNat_eq (by omega) (by rw [htoNat, hstep])

/-- Adding one unit to a full field carries out of it. -/
theorem not_sameOutside_add_unit {k n : Nat} {a : BitVec w} (hkn : k + n < w)
    (h : field a k n = 2 ^ n - 1) :
    ¬SameOutside (fieldMask w k n) a (a + BitVec.ofNat w (2 ^ k)) := by
  intro hsame
  rw [sameOutside_fieldMask_iff] at hsame
  have hk : 2 ^ k < 2 ^ w := Nat.pow_lt_pow_right (by omega) (by omega)
  have hpos : 0 < 2 ^ n := Nat.two_pow_pos n
  have hsplit := toNat_eq_field a k n
  rw [h] at hsplit
  set high := a.toNat / 2 ^ (k + n) with hhigh
  -- the carry turns the high part into its successor, modulo the word
  have hstep : a.toNat + 2 ^ k = a.toNat % 2 ^ k + 2 ^ (k + n) * (high + 1) := by
    have hring : 2 ^ k * (2 ^ n - 1 + 2 ^ n * high) + 2 ^ k = 2 ^ (k + n) * (high + 1) := by
      have hpred : 2 ^ n - 1 + 2 ^ n * high + 1 = 2 ^ n * (high + 1) := by
        rw [Nat.mul_add, Nat.mul_one]; omega
      calc 2 ^ k * (2 ^ n - 1 + 2 ^ n * high) + 2 ^ k
          = 2 ^ k * (2 ^ n - 1 + 2 ^ n * high + 1) := by ring
        _ = 2 ^ k * (2 ^ n * (high + 1)) := by rw [hpred]
        _ = 2 ^ (k + n) * (high + 1) := by rw [Nat.pow_add]; ring
    omega
  have hlow : a.toNat % 2 ^ k < 2 ^ (k + n) :=
    lt_of_lt_of_le (Nat.mod_lt _ (Nat.two_pow_pos k))
      (Nat.pow_le_pow_right (by omega) (by omega))
  have hquot : (a.toNat + 2 ^ k) / 2 ^ (k + n) = high + 1 := by
    rw [hstep, Nat.add_mul_div_left _ _ (Nat.two_pow_pos _), Nat.div_eq_of_lt hlow,
      Nat.zero_add]
  have hhigh_eq : (a + BitVec.ofNat w (2 ^ k)).toNat / 2 ^ (k + n) = high := hsame.2.symm
  rw [BitVec.toNat_add, BitVec.toNat_ofNat, Nat.mod_eq_of_lt hk] at hhigh_eq
  by_cases hwrap : a.toNat + 2 ^ k < 2 ^ w
  · rw [Nat.mod_eq_of_lt hwrap, hquot] at hhigh_eq
    omega
  · have hlt : a.toNat + 2 ^ k < 2 ^ w + 2 ^ k := by have := a.isLt; omega
    have hmod : (a.toNat + 2 ^ k) % 2 ^ w = a.toNat + 2 ^ k - 2 ^ w := by
      rw [Nat.mod_eq_sub_mod (by omega), Nat.mod_eq_of_lt (by omega)]
    have hkle : 2 ^ k ≤ 2 ^ (k + n) := Nat.pow_le_pow_right (by omega) (by omega)
    have hzero : (a.toNat + 2 ^ k - 2 ^ w) / 2 ^ (k + n) = 0 :=
      Nat.div_eq_of_lt (by omega)
    -- a wrapped word has a zero high part, yet `a` itself was at the top
    have htop : 1 ≤ high := by
      rw [hhigh]
      apply (Nat.le_div_iff_mul_le (Nat.two_pow_pos _)).mpr
      have hdouble : 2 * 2 ^ (k + n) ≤ 2 ^ w := by
        calc 2 * 2 ^ (k + n) = 2 ^ (k + n + 1) := by ring
          _ ≤ 2 ^ w := Nat.pow_le_pow_right (by omega) (by omega)
      omega
    rw [hmod, hzero] at hhigh_eq
    omega

theorem sub_unit_of_pos {k n : Nat} {a : BitVec w} (hkn : k + n ≤ w) (h : 0 < field a k n) :
    SameOutside (fieldMask w k n) a (a - BitVec.ofNat w (2 ^ k)) ∧
      field (a - BitVec.ofNat w (2 ^ k)) k n = field a k n - 1 := by
  have hsplit := toNat_eq_field a k n
  have hlt := field_lt a k n
  set f := field a k n with hf
  set high := a.toNat / 2 ^ (k + n) with hhigh
  have hn : 1 ≤ n := by
    rcases Nat.eq_zero_or_pos n with h0 | h0
    · subst h0; simp at hlt; omega
    · exact h0
  have hk : 2 ^ k < 2 ^ w := Nat.pow_lt_pow_right (by omega) (by omega)
  have hring : 2 ^ k * (f + 2 ^ n * high) = 2 ^ k * (f - 1 + 2 ^ n * high) + 2 ^ k := by
    have hpred : f + 2 ^ n * high = f - 1 + 2 ^ n * high + 1 := by omega
    rw [hpred]; ring
  have hle : BitVec.ofNat w (2 ^ k) ≤ a := by
    rw [BitVec.le_def, BitVec.toNat_ofNat, Nat.mod_eq_of_lt hk]
    omega
  have htoNat : (a - BitVec.ofNat w (2 ^ k)).toNat = a.toNat - 2 ^ k := by
    rw [BitVec.toNat_sub_of_le hle, BitVec.toNat_ofNat, Nat.mod_eq_of_lt hk]
  have hstep : a.toNat - 2 ^ k = a.toNat % 2 ^ k + 2 ^ k * (f - 1 + 2 ^ n * high) := by omega
  exact field_of_toNat_eq (by omega) (by rw [htoNat, hstep])

end Uvent.Lib.BitField
