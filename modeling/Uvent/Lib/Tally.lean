import Mathlib.Data.Finset.Card

/-!
# Counting threads

How many of the threads of a system are at a point of some kind, when single
threads move.
-/

namespace Uvent.Lib

variable {T ℓ : Type} {p : ℓ → Bool} {own : T → ℓ} {t : T} {l : ℓ} {n : Nat}

def Tallied (p : ℓ → Bool) (own : T → ℓ) (n : Nat) : Prop :=
  ∃ threads : Finset T, (∀ t, t ∈ threads ↔ p (own t) = true) ∧ threads.card = n

theorem tallied_zero_iff : Tallied p own 0 ↔ ∀ t, p (own t) = false := by
  constructor
  · rintro ⟨threads, hmem, hcard⟩ t
    rw [Finset.card_eq_zero] at hcard
    have hnot : t ∉ threads := by
      rw [hcard]
      exact Finset.notMem_empty t
    rw [hmem] at hnot
    simpa using hnot
  · intro hnone
    refine ⟨∅, fun t => ?_, rfl⟩
    simp [hnone t]

theorem Tallied.pos (h : Tallied p own n) (ht : p (own t) = true) : 0 < n := by
  obtain ⟨threads, hmem, rfl⟩ := h
  exact Finset.card_pos.mpr ⟨t, (hmem t).mpr ht⟩

theorem Tallied.eq_zero (h : Tallied p own n) (hnone : ∀ t, p (own t) = false) : n = 0 := by
  obtain ⟨threads, hmem, rfl⟩ := h
  rw [Finset.card_eq_zero]
  refine Finset.eq_empty_of_forall_notMem fun t ht => ?_
  rw [hmem, hnone t] at ht
  cases ht

variable [DecidableEq T]

theorem Tallied.same (h : Tallied p own n) (hl : p l = p (own t)) :
    Tallied p (Function.update own t l) n := by
  obtain ⟨threads, hmem, hcard⟩ := h
  refine ⟨threads, fun t' => ?_, hcard⟩
  by_cases ht : t' = t
  · subst ht
    rw [Function.update_self, hl]
    exact hmem t'
  · rw [Function.update_of_ne ht]
    exact hmem t'

theorem Tallied.gain (h : Tallied p own n) (ht : p (own t) = false) (hl : p l = true) :
    Tallied p (Function.update own t l) (n + 1) := by
  obtain ⟨threads, hmem, hcard⟩ := h
  have hout : t ∉ threads := by
    rw [hmem, ht]
    simp
  refine ⟨insert t threads, fun t' => ?_, by rw [Finset.card_insert_of_notMem hout, hcard]⟩
  by_cases htt : t' = t
  · subst htt
    simp [hl]
  · rw [Function.update_of_ne htt, Finset.mem_insert]
    simp [htt, hmem t']

theorem Tallied.lose (h : Tallied p own (n + 1)) (ht : p (own t) = true) (hl : p l = false) :
    Tallied p (Function.update own t l) n := by
  obtain ⟨threads, hmem, hcard⟩ := h
  have hin : t ∈ threads := (hmem t).mpr ht
  refine ⟨threads.erase t, fun t' => ?_, by rw [Finset.card_erase_of_mem hin, hcard]; rfl⟩
  by_cases htt : t' = t
  · subst htt
    simp [hl]
  · rw [Function.update_of_ne htt, Finset.mem_erase]
    simp [htt, hmem t']

end Uvent.Lib
