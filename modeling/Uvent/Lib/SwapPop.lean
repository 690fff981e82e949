import Mathlib.Data.List.Nodup

/-!
# Removing an element by swap and pop

Overwriting position `i` with the last element and dropping the last position
removes the element at `i` in constant time.  The order changes, but every other
element keeps its place, except the one that was last.
-/

namespace Uvent.Lib

variable {α : Type*}

/-- `l[i] = l.back(); l.pop_back()`. -/
def swapPop (l : List α) (i : Nat) : List α :=
  match l.getLast? with
  | none => l
  | some z => (l.set i z).dropLast

@[simp] theorem length_swapPop (l : List α) (i : Nat) : (swapPop l i).length = l.length - 1 := by
  unfold swapPop
  cases h : l.getLast? with
  | none => simp [List.getLast?_eq_none_iff.mp h]
  | some z => simp

theorem getElem?_swapPop (l : List α) (i j : Nat) :
    (swapPop l i)[j]? =
      if j < l.length - 1 then if j = i then l.getLast? else l[j]? else none := by
  unfold swapPop
  cases h : l.getLast? with
  | none => simp [List.getLast?_eq_none_iff.mp h]
  | some z =>
      rw [List.getElem?_dropLast, List.length_set]
      by_cases hj : j < l.length - 1
      · rw [if_pos hj, if_pos hj]
        by_cases hi : j = i
        · subst hi
          rw [if_pos rfl, List.getElem?_set_self (by omega)]
        · rw [if_neg hi, List.getElem?_set_ne (Ne.symm hi)]
      · rw [if_neg hj, if_neg hj]

theorem getElem?_of_swapPop {l : List α} {i j : Nat} {x : α} (h : (swapPop l i)[j]? = some x) :
    j + 1 < l.length ∧ if j = i then l[l.length - 1]? = some x else l[j]? = some x := by
  rw [getElem?_swapPop] at h
  by_cases hj : j < l.length - 1
  · rw [if_pos hj] at h
    refine ⟨by omega, ?_⟩
    by_cases hi : j = i
    · rw [if_pos hi] at h ⊢
      rwa [List.getLast?_eq_getElem?] at h
    · rw [if_neg hi] at h ⊢
      exact h
  · rw [if_neg hj] at h
    contradiction

/-- In a list without duplicates exactly the element at `i` goes. -/
theorem mem_swapPop {l : List α} {i : Nat} {x y : α} (hnd : l.Nodup) (hx : l[i]? = some x) :
    y ∈ swapPop l i ↔ y ∈ l ∧ y ≠ x := by
  have hi : i < l.length := (List.getElem?_eq_some_iff.mp hx).1
  have huniq : ∀ {a b : Nat} {z : α}, l[a]? = some z → l[b]? = some z → a = b := by
    intro a b z ha hb
    exact (List.getElem?_inj (List.getElem?_eq_some_iff.mp ha).1 hnd).mp (ha.trans hb.symm)
  rw [List.mem_iff_getElem?, List.mem_iff_getElem?]
  constructor
  · rintro ⟨j, hj⟩
    obtain ⟨hlt, hold⟩ := getElem?_of_swapPop hj
    by_cases hji : j = i
    · rw [if_pos hji] at hold
      refine ⟨⟨_, hold⟩, ?_⟩
      rintro rfl
      have := huniq hold hx
      omega
    · rw [if_neg hji] at hold
      refine ⟨⟨_, hold⟩, ?_⟩
      rintro rfl
      exact hji (huniq hold hx)
  · rintro ⟨⟨j, hj⟩, hne⟩
    have hjlen : j < l.length := (List.getElem?_eq_some_iff.mp hj).1
    have hji : j ≠ i := by
      rintro rfl
      exact hne (Option.some.inj (hj.symm.trans hx))
    by_cases hlast : j = l.length - 1
    · -- the last element moves to position `i`
      refine ⟨i, ?_⟩
      rw [getElem?_swapPop, if_pos (by omega), if_pos rfl, List.getLast?_eq_getElem?, ← hlast]
      exact hj
    · refine ⟨j, ?_⟩
      rw [getElem?_swapPop, if_pos (by omega), if_neg hji]
      exact hj

end Uvent.Lib
