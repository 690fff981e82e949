import Mathlib.Logic.Function.Basic

/-!
# What happens to the places of a queue

A queue gives out places in order.  A party puts an element at the next place; another claims
a place, and is given the element.  A party has at most one job in the queue at a time.
-/

namespace Uvent.Lib

variable {T A : Type}

structure PlaceLog (T A : Type) where
  put : Nat → Option (T × A)
  taker : Nat → Option T
  given : Nat → Option T

/-- What a party is doing in the queue; `done` once its element has a place. -/
inductive Job (A : Type) where
  | rest
  | put (v : A) (done : Bool)
  | take
  deriving DecidableEq, Repr

inductive Reply (A : Type) where
  | sent (ok : Bool)
  | empty
  | taken (v : A)
  deriving DecidableEq, Repr

namespace PlaceLog

def new : PlaceLog T A := ⟨fun _ => none, fun _ => none, fun _ => none⟩

def setPut (L : PlaceLog T A) (x : Nat) (t : T) (v : A) : PlaceLog T A :=
  { L with put := Function.update L.put x (some (t, v)) }

def setTaker (L : PlaceLog T A) (x : Nat) (t : T) : PlaceLog T A :=
  { L with taker := Function.update L.taker x (some t) }

def setGiven (L : PlaceLog T A) (x : Nat) (t : T) : PlaceLog T A :=
  { L with given := Function.update L.given x (some t) }

def Drained (L : PlaceLog T A) : Prop := ∀ x, L.put x ≠ none → L.taker x ≠ none

/-- A step of party `t` in its job, with what it is told; in a `sharp` queue a party is told
that the queue is empty only when it is drained. -/
inductive Moves (sharp : Prop) (t : T) (L : PlaceLog T A) :
    Job A → Option (Reply A) → PlaceLog T A → Job A → Prop where
  | same (j : Job A) : Moves sharp t L j none L j
  | puts (x : Nat) (v : A) (hlast : ∀ y, L.put y ≠ none → y < x)
      (hopen : L.taker x = none → ∀ y, x < y → L.taker y = none) :
      Moves sharp t L (.put v false) none (L.setPut x t v) (.put v true)
  | sent (v : A) : Moves sharp t L (.put v true) (some (.sent true)) L .rest
  | full (v : A) : Moves sharp t L (.put v false) (some (.sent false)) L .rest
  | claims (x : Nat) (hfree : L.taker x = none)
      (hnext : ∀ y, y < x → L.put y ≠ none → L.taker y ≠ none) :
      Moves sharp t L .take none (L.setTaker x t) .take
  | empty (h : sharp → L.Drained) : Moves sharp t L .take (some .empty) L .rest
  | gives (x : Nat) (p : T) (v : A) (hput : L.put x = some (p, v)) (htaker : L.taker x = some t)
      (hkept : L.given x = none) : Moves sharp t L .take (some (.taken v)) (L.setGiven x t) .rest

structure Sound (L : PlaceLog T A) : Prop where
  given : ∀ x t, L.given x = some t → L.taker x = some t ∧ L.put x ≠ none
  ordered : ∀ x y, x < y → L.put x ≠ none → L.taker y ≠ none → L.taker x ≠ none

theorem sound_new : (new : PlaceLog T A).Sound := ⟨nofun, fun _ _ _ h => absurd rfl h⟩

section Fields

variable (L : PlaceLog T A) (x : Nat) {y : Nat} (t : T) (v : A)

@[simp] theorem setPut_self : (L.setPut x t v).put x = some (t, v) := Function.update_self ..

theorem setPut_of_ne (h : y ≠ x) : (L.setPut x t v).put y = L.put y := Function.update_of_ne h ..

@[simp] theorem setTaker_self : (L.setTaker x t).taker x = some t := Function.update_self ..

theorem setTaker_of_ne (h : y ≠ x) : (L.setTaker x t).taker y = L.taker y :=
  Function.update_of_ne h ..

@[simp] theorem setGiven_self : (L.setGiven x t).given x = some t := Function.update_self ..

theorem setGiven_of_ne (h : y ≠ x) : (L.setGiven x t).given y = L.given y :=
  Function.update_of_ne h ..

end Fields

section Moves

variable {sharp : Prop} {t : T} {L L' : PlaceLog T A} {j j' : Job A} {r : Option (Reply A)}

theorem Moves.taker_mono (h : Moves sharp t L j r L' j') {x : Nat} (hx : L.taker x ≠ none) :
    L'.taker x = L.taker x := by
  cases h with
  | claims y hfree _ =>
    refine L.setTaker_of_ne y t ?_
    rintro rfl
    exact hx hfree
  | same | puts | sent | full | empty | gives => rfl

theorem Moves.sound (h : Moves sharp t L j r L' j') (hL : L.Sound) : L'.Sound := by
  cases h with
  | same | sent | full | empty => exact hL
  | puts x v hlast hopen =>
    refine ⟨fun y u hy => ?_, fun y z hlt hput htaker => ?_⟩
    · obtain ⟨htaker, hput⟩ := hL.given y u hy
      refine ⟨htaker, ?_⟩
      rwa [L.setPut_of_ne x t v (Nat.ne_of_lt (hlast y hput))]
    · by_cases hyx : y = x
      · subst hyx
        intro hnone
        exact htaker (hopen hnone z hlt)
      · rw [L.setPut_of_ne x t v hyx] at hput
        exact hL.ordered y z hlt hput htaker
  | claims x hfree hnext =>
    refine ⟨fun y u hy => ?_, fun y z hlt hput htaker => ?_⟩
    · obtain ⟨htaker, hput⟩ := hL.given y u hy
      refine ⟨?_, hput⟩
      rwa [L.setTaker_of_ne x t]
      rintro rfl
      cases hfree.symm.trans htaker
    · by_cases hyx : y = x
      · subst hyx
        rw [setTaker_self]
        nofun
      · rw [L.setTaker_of_ne x t hyx]
        by_cases hzx : z = x
        · subst hzx
          exact hnext y hlt hput
        · rw [L.setTaker_of_ne x t hzx] at htaker
          exact hL.ordered y z hlt hput htaker
  | gives x p v hput htaker hkept =>
    refine ⟨fun y u hy => ?_, hL.ordered⟩
    by_cases hyx : y = x
    · subst hyx
      rw [setGiven_self] at hy
      refine ⟨htaker.trans hy, ?_⟩
      change L.put y ≠ none
      rw [hput]
      nofun
    · rw [L.setGiven_of_ne x t hyx] at hy
      exact hL.given y u hy

end Moves

end PlaceLog

end Uvent.Lib
