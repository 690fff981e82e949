import Uvent.Lib.Lap
import Mathlib.Logic.Function.Basic

/-!
# A list kept on a ring of cells

`m` cells hold a list from a position on: element `i` lies in the cell numbered
by the position plus `i`, modulo `m`.  The list grows at its end and shrinks at
its front.  Storing a run of elements around the ring is one flat copy where the
run does not pass the last cell, and two where it does.
-/

namespace Uvent.Lib.RingBuffer

open Uvent.Lib.Lap

variable {α : Type}

def Holds (m : Nat) (cells : Nat → Option α) (d : Nat) (xs : List α) : Prop :=
  ∀ i (hi : i < xs.length), cells ((d + i) % m) = some xs[i]

def fill (m : Nat) (cells : Nat → Option α) (p : Nat) : List α → Nat → Option α
  | [] => cells
  | y :: ys => fill m (Function.update cells (p % m) (some y)) (p + 1) ys

def splice (cells : Nat → Option α) (a : Nat) (ys : List α) : Nat → Option α :=
  fun j => if a ≤ j ∧ j < a + ys.length then ys[j - a]? else cells j

section Holds

variable {m d : Nat} {cells : Nat → Option α} {xs : List α}

theorem holds_nil : Holds m cells d [] := by
  intro i hi
  exact absurd hi (Nat.not_lt_zero i)

theorem Holds.update (h : Holds m cells d xs) {p : Nat}
    (hout : ∀ i, i < xs.length → (d + i) % m ≠ p % m) (v : Option α) :
    Holds m (Function.update cells (p % m) v) d xs := by
  intro i hi
  rw [Function.update_of_ne (hout i hi)]
  exact h i hi

theorem Holds.update_after (h : Holds m cells d xs) {p : Nat} (hlow : d + xs.length ≤ p)
    (hhigh : p < d + m) (v : Option α) : Holds m (Function.update cells (p % m) v) d xs := by
  apply h.update
  intro i hi
  exact mod_ne_of_lt_lap (by omega) (by omega)

theorem Holds.update_before (h : Holds m cells d xs) {p : Nat} (hlow : p < d)
    (hhigh : d + xs.length ≤ p + m) (v : Option α) :
    Holds m (Function.update cells (p % m) v) d xs := by
  apply h.update
  intro i hi
  exact (mod_ne_of_lt_lap (by omega) (by omega)).symm

theorem Holds.push (h : Holds m cells d xs) (hroom : xs.length < m) (a : α) :
    Holds m (Function.update cells ((d + xs.length) % m) (some a)) d (xs ++ [a]) := by
  intro i hi
  rw [List.length_append, List.length_singleton] at hi
  by_cases hlast : i = xs.length
  · subst hlast
    rw [Function.update_self, List.getElem_concat_length rfl]
  · have hlt : i < xs.length := by omega
    rw [List.getElem_append_left hlt]
    exact h.update_after (Nat.le_refl _) (by omega) _ i hlt

theorem Holds.drop (h : Holds m cells d xs) (n : Nat) : Holds m cells (d + n) (xs.drop n) := by
  intro i hi
  rw [List.length_drop] at hi
  rw [List.getElem_drop, Nat.add_assoc]
  exact h (n + i) (by omega)

theorem Holds.fill (h : Holds m cells d xs) {ys : List α} (hroom : xs.length + ys.length ≤ m) :
    Holds m (fill m cells (d + xs.length) ys) d (xs ++ ys) := by
  induction ys generalizing cells xs with
  | nil =>
      rw [List.append_nil]
      exact h
  | cons y ys ih =>
      rw [List.length_cons] at hroom
      have hpush := ih (h.push (by omega) y) (by rw [List.length_append, List.length_singleton]; omega)
      rw [List.length_append, List.length_singleton, List.append_assoc] at hpush
      exact hpush

/-- What a list on the ring reads as, one element after the other. -/
theorem mapM_range_eq_some {f : Nat → Option α} {xs : List α}
    (h : ∀ i (hi : i < xs.length), f i = some xs[i]) :
    (List.range xs.length).mapM f = some xs := by
  induction xs generalizing f with
  | nil => rfl
  | cons x xs ih =>
      have hhead : f 0 = some x := h 0 (Nat.zero_lt_succ _)
      have htail : (List.range xs.length).mapM (f ∘ Nat.succ) = some xs := by
        apply ih
        intro i hi
        exact h (i + 1) (Nat.succ_lt_succ hi)
      rw [List.length_cons, List.range_succ_eq_map, List.mapM_cons, hhead, List.mapM_map]
      simp only [Option.bind_eq_bind, Option.bind_some, Option.pure_def]
      change ((List.range xs.length).mapM (f ∘ Nat.succ)).bind _ = _
      rw [htail]
      rfl

end Holds

/-! ## Flat copies -/

theorem fill_append (m : Nat) (cells : Nat → Option α) (p : Nat) (ys zs : List α) :
    fill m cells p (ys ++ zs) = fill m (fill m cells p ys) (p + ys.length) zs := by
  induction ys generalizing cells p with
  | nil => rfl
  | cons y ys ih =>
      rw [List.cons_append, fill, fill, ih, List.length_cons]
      congr 1
      omega

@[simp] theorem splice_nil (cells : Nat → Option α) (a : Nat) : splice cells a [] = cells := by
  funext j
  rw [splice, if_neg]
  rw [List.length_nil]
  omega

theorem splice_cons (cells : Nat → Option α) (a : Nat) (y : α) (ys : List α) :
    splice cells a (y :: ys) = splice (Function.update cells a (some y)) (a + 1) ys := by
  funext j
  simp only [splice, List.length_cons]
  by_cases hj : j = a
  · subst hj
    rw [if_pos (by omega), if_neg (by omega), Nat.sub_self, Function.update_self]
    rfl
  · rw [Function.update_of_ne hj]
    by_cases hin : a ≤ j ∧ j < a + (ys.length + 1)
    · have hsub : j - a = (j - (a + 1)) + 1 := by omega
      rw [if_pos hin, if_pos (by omega), hsub, List.getElem?_cons_succ]
    · rw [if_neg hin, if_neg (by omega)]

/-- A run that ends by the last cell is stored by one flat copy. -/
theorem fill_eq_splice {m : Nat} (cells : Nat → Option α) {p : Nat} {ys : List α}
    (hfit : p % m + ys.length ≤ m) : fill m cells p ys = splice cells (p % m) ys := by
  induction ys generalizing cells p with
  | nil => rw [splice_nil, fill]
  | cons y ys ih =>
      rw [List.length_cons] at hfit
      rw [fill, splice_cons]
      cases ys with
      | nil => rw [splice_nil, fill]
      | cons z zs =>
          rw [List.length_cons] at hfit
          have hnext : (p + 1) % m = p % m + 1 := by
            rw [Nat.add_mod, Nat.mod_eq_of_lt (show 1 < m by omega), Nat.mod_eq_of_lt]
            omega
          rw [ih _ (by rw [hnext, List.length_cons]; omega), hnext]

/-- A run of at most a lap ends past its start exactly where it does not reach the
last cell; where the two are equal it is a full lap. -/
theorem mod_lt_mod_add_iff {m p n : Nat} (hpos : 0 < n) (hlap : n ≤ m) :
    p % m < (p + n) % m ↔ p % m + n < m := by
  have hlt := Nat.mod_lt p (show 0 < m by omega)
  have hmod : (p + n) % m = (p % m + n) % m := (Nat.mod_add_mod p m n).symm
  rw [hmod]
  generalize p % m = r at hlt ⊢
  constructor
  · intro h
    by_contra hwrap
    rw [Nat.mod_eq_sub_mod (by omega), Nat.mod_eq_of_lt (by omega)] at h
    omega
  · intro h
    rw [Nat.mod_eq_of_lt h]
    omega

theorem add_sub_mod_mod {m p : Nat} (hm : 0 < m) : (p + (m - p % m)) % m = 0 := by
  have hlt := Nat.mod_lt p hm
  have hdiv := Nat.div_add_mod p m
  have hsum : p + (m - p % m) = m * (p / m + 1) := by
    rw [Nat.mul_add]
    omega
  rw [hsum]
  exact Nat.mul_mod_right m _

/-- A run that reaches the last cell is stored by two: up to that cell, and the
rest from the first cell on. -/
theorem fill_eq_splice_splice {m : Nat} (cells : Nat → Option α) {p : Nat} {ys : List α}
    (hm : 0 < m) (hwrap : m ≤ p % m + ys.length) (hlap : ys.length ≤ m) :
    fill m cells p ys =
      splice (splice cells (p % m) (ys.take (m - p % m))) 0 (ys.drop (m - p % m)) := by
  have hlt := Nat.mod_lt p hm
  have hlen : (ys.take (m - p % m)).length = m - p % m := by
    rw [List.length_take]
    omega
  have hstart := add_sub_mod_mod (p := p) hm
  calc
    fill m cells p ys
        = fill m cells p (ys.take (m - p % m) ++ ys.drop (m - p % m)) := by
          rw [List.take_append_drop]
    _ = fill m (fill m cells p (ys.take (m - p % m))) (p + (m - p % m))
          (ys.drop (m - p % m)) := by
          rw [fill_append, hlen]
    _ = splice (splice cells (p % m) (ys.take (m - p % m))) 0 (ys.drop (m - p % m)) := by
          rw [fill_eq_splice cells (by omega), fill_eq_splice, hstart]
          rw [hstart, List.length_drop]
          omega

end Uvent.Lib.RingBuffer
