import Mathlib.Logic.Function.Basic
import Mathlib.Order.Basic

/-!
# Forests of parent links

Nodes that know their parent and are never moved.  New nodes come under the ones there are,
so that a parent is smaller than its children in some order.
-/

namespace Uvent.Lib

variable {ι : Type} {parent : ι → Option ι} {a b c p x : ι}

inductive Above (parent : ι → Option ι) (a : ι) : ι → Prop where
  | refl : Above parent a a
  | up {b p : ι} (hp : parent b = some p) (h : Above parent a p) : Above parent a b

def OnWay (parent : ι → Option ι) (a : ι) (b : Option ι) : Prop :=
  ∃ x, b = some x ∧ Above parent a x

@[simp] theorem onWay_some : OnWay parent a (some b) ↔ Above parent a b := by
  constructor
  · rintro ⟨x, hx, h⟩
    obtain rfl := Option.some.inj hx
    exact h
  · exact fun h => ⟨b, rfl, h⟩

@[simp] theorem not_onWay_none : ¬OnWay parent a none := by
  rintro ⟨x, hx, -⟩
  cases hx

theorem above_iff : Above parent a b ↔ a = b ∨ OnWay parent a (parent b) := by
  constructor
  · intro h
    cases h with
    | refl => exact .inl rfl
    | up hp h => exact .inr ⟨_, hp, h⟩
  · rintro (rfl | ⟨p, hp, h⟩)
    · exact .refl
    · exact .up hp h

theorem Above.trans (h : Above parent a b) (h' : Above parent b c) : Above parent a c := by
  induction h' with
  | refl => exact h
  | up hp _ ih => exact .up hp ih

/-- A root that gets a parent takes nobody off a way. -/
theorem Above.link [DecidableEq ι] {c : ι} {q : Option ι} (h : Above parent a b)
    (hc : parent c = none) : Above (Function.update parent c q) a b := by
  induction h with
  | refl => exact .refl
  | @up b p hp _ ih =>
      have hbc : b ≠ c := by
        rintro rfl
        rw [hc] at hp
        cases hp
      refine .up ?_ ih
      rw [Function.update_of_ne hbc]
      exact hp

section Order

variable [Preorder ι]

def Grounded (parent : ι → Option ι) : Prop := ∀ b p, parent b = some p → p < b

theorem Above.le (hg : Grounded parent) (h : Above parent a b) : a ≤ b := by
  induction h with
  | refl => exact le_refl _
  | up hp _ ih => exact ih.trans (hg _ _ hp).le

theorem not_onWay_parent (hg : Grounded parent) : ¬OnWay parent b (parent b) := by
  rintro ⟨p, hp, h⟩
  exact absurd (lt_of_lt_of_le (hg _ _ hp) (h.le hg)) (lt_irrefl _)

end Order

section Extend

variable [DecidableEq ι] {new : ι} {q : Option ι}

theorem above_extend (hnew : ∀ b, parent b ≠ some new) (hb : b ≠ new) :
    Above (Function.update parent new q) a b ↔ Above parent a b := by
  constructor
  · intro h
    induction h with
    | refl => exact .refl
    | @up b p hp _ ih =>
        rw [Function.update_of_ne hb] at hp
        have hne : p ≠ new := by
          rintro rfl
          exact hnew b hp
        exact .up hp (ih hne)
  · intro h
    induction h with
    | refl => exact .refl
    | @up b p hp _ ih =>
        have hne : p ≠ new := by
          rintro rfl
          exact hnew b hp
        refine .up ?_ (ih hne)
        rw [Function.update_of_ne hb]
        exact hp

theorem onWay_extend (hnew : ∀ b, parent b ≠ some new) {y : Option ι} (hy : y ≠ some new) :
    OnWay (Function.update parent new q) a y ↔ OnWay parent a y := by
  cases y with
  | none => simp
  | some b =>
      have hb : b ≠ new := fun heq => hy (congrArg some heq)
      rw [onWay_some, onWay_some, above_extend hnew hb]

end Extend

end Uvent.Lib
