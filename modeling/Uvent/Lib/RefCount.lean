import Uvent.Lib.Tally

/-!
# Reference counts

Holders that each refer to at most one object, and a counter for every object.  A holder
takes an object up, lets it go, or hands it to another holder.
-/

namespace Uvent.Lib

variable {H N : Type} [DecidableEq N] {points : H → Option N} {refs : N → Nat}
  {h h' : H} {n m : N}

def RefCounted (points : H → Option N) (refs : N → Nat) : Prop :=
  ∀ n, Tallied (fun o => decide (o = some n)) points (refs n)

theorem RefCounted.pos (hc : RefCounted points refs) (hh : points h = some n) : 0 < refs n :=
  (hc n).pos (t := h) (decide_eq_true hh)

theorem RefCounted.eq_zero_iff (hc : RefCounted points refs) :
    refs n = 0 ↔ ∀ h, points h ≠ some n := by
  constructor
  · intro hzero h hh
    exact absurd hzero (hc.pos hh).ne'
  · intro hnone
    exact (hc n).eq_zero fun h => decide_eq_false (hnone h)

theorem RefCounted.unique (hc : RefCounted points refs) (hle : refs n ≤ 1)
    (hh : points h = some n) (hh' : points h' = some n) : h = h' := by
  obtain ⟨holders, hmem, hcard⟩ := hc n
  have hin : h ∈ holders := (hmem h).mpr (decide_eq_true hh)
  have hin' : h' ∈ holders := (hmem h').mpr (decide_eq_true hh')
  have hone : holders.card ≤ 1 := hcard.le.trans hle
  exact Finset.card_le_one.mp hone h hin h' hin'

theorem refCounted_zero (hpoints : ∀ h, points h = none) (hrefs : ∀ n, refs n = 0) :
    RefCounted points refs := by
  intro n
  rw [hrefs n, tallied_zero_iff]
  intro h
  rw [hpoints h]
  simp

variable [DecidableEq H]

theorem RefCounted.acquire (hc : RefCounted points refs) (hfree : points h = none) :
    RefCounted (Function.update points h (some n)) (Function.update refs n (refs n + 1)) := by
  intro m
  by_cases hm : m = n
  · subst hm
    rw [Function.update_self]
    exact (hc m).gain (by simp [hfree]) (by simp)
  · rw [Function.update_of_ne hm]
    refine (hc m).same ?_
    rw [hfree]
    simp [Ne.symm hm]

theorem RefCounted.release (hc : RefCounted points refs) (hh : points h = some n) :
    RefCounted (Function.update points h none) (Function.update refs n (refs n - 1)) := by
  have hpos := hc.pos hh
  intro m
  by_cases hm : m = n
  · subst hm
    rw [Function.update_self]
    have hold := hc m
    rw [show refs m = refs m - 1 + 1 by omega] at hold
    exact hold.lose (by simp [hh]) (by simp)
  · rw [Function.update_of_ne hm]
    refine (hc m).same ?_
    rw [hh]
    simp [Ne.symm hm]

/-- The counters do not see a reference that changes hands. -/
theorem RefCounted.move (hc : RefCounted points refs) (hh : points h = some n)
    (hfree : points h' = none) :
    RefCounted (Function.update (Function.update points h none) h' (some n)) refs := by
  have hne : h' ≠ h := by
    rintro rfl
    rw [hh] at hfree
    cases hfree
  have hfree' : Function.update points h none h' = none := by
    rw [Function.update_of_ne hne]
    exact hfree
  have hmoved := (hc.release hh).acquire (n := n) hfree'
  have hpos := hc.pos hh
  rwa [Function.update_self, Function.update_idem, Nat.sub_add_cancel hpos,
    Function.update_eq_self] at hmoved

end Uvent.Lib
