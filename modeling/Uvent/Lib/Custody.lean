import Mathlib.Data.List.Nodup
import Mathlib.Data.List.Perm.Subperm
import Mathlib.Logic.Function.Basic

/-!
# Custody

Items that lie in boxes, each in at most one box and there once.  Items are put into a box,
and pass from one box to another.
-/

namespace Uvent.Lib

variable {ι α : Type} {boxes boxes' : ι → List α} {i j : ι} {a : α}

structure Custody (boxes : ι → List α) : Prop where
  nodup : ∀ i, (boxes i).Nodup
  unique : ∀ i j a, a ∈ boxes i → a ∈ boxes j → i = j

theorem custody_nil : Custody fun _ : ι => ([] : List α) :=
  ⟨fun _ => List.nodup_nil, fun _ _ _ h => absurd h List.not_mem_nil⟩

theorem Custody.sublist (h : Custody boxes) (hsub : ∀ k, (boxes' k).Sublist (boxes k)) :
    Custody boxes' where
  nodup k := (h.nodup k).sublist (hsub k)
  unique k l a hk hl := h.unique k l a ((hsub k).subset hk) ((hsub l).subset hl)

theorem Custody.add (h : Custody boxes) (hnew : ∀ k, a ∉ boxes k)
    (hperm : (boxes' i).Perm (a :: boxes i)) (hother : ∀ k, k ≠ i → boxes' k = boxes k) :
    Custody boxes' := by
  have hmem : ∀ k b, b ∈ boxes' k → b ∈ boxes k ∨ (b = a ∧ k = i) := by
    intro k b hb
    by_cases hk : k = i
    · rw [hk, hperm.mem_iff, List.mem_cons] at hb
      rw [hk]
      exact hb.symm.imp id fun hb => ⟨hb, rfl⟩
    · rw [hother k hk] at hb
      exact .inl hb
  refine ⟨fun k => ?_, fun k l b hk hl => ?_⟩
  · by_cases hk : k = i
    · rw [hk, hperm.nodup_iff]
      exact List.nodup_cons.mpr ⟨hnew i, h.nodup i⟩
    · rw [hother k hk]
      exact h.nodup k
  · rcases hmem k b hk with hk | ⟨rfl, rfl⟩
    · rcases hmem l b hl with hl | ⟨rfl, rfl⟩
      · exact h.unique k l b hk hl
      · exact absurd hk (hnew k)
    · rcases hmem l b hl with hl | ⟨-, rfl⟩
      · exact absurd hl (hnew l)
      · rfl

theorem Custody.move (h : Custody boxes) (hij : i ≠ j)
    (hperm : (boxes' i ++ boxes' j).Perm (boxes i ++ boxes j))
    (hother : ∀ k, k ≠ i → k ≠ j → boxes' k = boxes k) : Custody boxes' := by
  have hapart : (boxes i).Disjoint (boxes j) := fun a hi hj => hij (h.unique i j a hi hj)
  have hnodup : (boxes' i ++ boxes' j).Nodup :=
    hperm.nodup_iff.mpr ((h.nodup i).append (h.nodup j) hapart)
  rw [List.nodup_append'] at hnodup
  obtain ⟨hi, hj, hdisjoint⟩ := hnodup
  have hmem : ∀ k a, a ∈ boxes' k → (k ≠ i ∧ k ≠ j ∧ a ∈ boxes k) ∨
      ((k = i ∨ k = j) ∧ (a ∈ boxes i ∨ a ∈ boxes j)) := by
    intro k a ha
    have hboth : ∀ {l}, a ∈ boxes' l → l = i ∨ l = j → a ∈ boxes i ∨ a ∈ boxes j := by
      intro l hl hlij
      rw [← List.mem_append, ← hperm.mem_iff, List.mem_append]
      rcases hlij with rfl | rfl
      · exact .inl hl
      · exact .inr hl
    by_cases hki : k = i
    · exact .inr ⟨.inl hki, hboth ha (.inl hki)⟩
    · by_cases hkj : k = j
      · exact .inr ⟨.inr hkj, hboth ha (.inr hkj)⟩
      · rw [hother k hki hkj] at ha
        exact .inl ⟨hki, hkj, ha⟩
  have hout : ∀ {k a}, k ≠ i → k ≠ j → a ∈ boxes k → ¬ (a ∈ boxes i ∨ a ∈ boxes j) := by
    rintro k a hki hkj hk (ha | ha)
    · exact hki (h.unique k i a hk ha)
    · exact hkj (h.unique k j a hk ha)
  refine ⟨fun k => ?_, fun k l a hk hl => ?_⟩
  · by_cases hki : k = i
    · rw [hki]
      exact hi
    · by_cases hkj : k = j
      · rw [hkj]
        exact hj
      · rw [hother k hki hkj]
        exact h.nodup k
  · rcases hmem k a hk with ⟨hki, hkj, hk'⟩ | ⟨hkij, hkin⟩
    · rcases hmem l a hl with ⟨_, _, hl'⟩ | ⟨_, hlin⟩
      · exact h.unique k l a hk' hl'
      · exact absurd hlin (hout hki hkj hk')
    · rcases hmem l a hl with ⟨hli, hlj, hl'⟩ | ⟨hlij, _⟩
      · exact absurd hkin (hout hli hlj hl')
      · rcases hkij with rfl | rfl <;> rcases hlij with rfl | rfl
        · rfl
        · exact absurd hl (hdisjoint hk)
        · exact absurd hk (hdisjoint hl)
        · rfl

end Uvent.Lib
