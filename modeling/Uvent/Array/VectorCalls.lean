import Uvent.Array.LockFreeVector

/-!
# The vector in the hands of one thread

`emplace_back`, `pop_back` and `erase` one after the other.  A loop takes fuel, and a call that
returns with some fuel is one that ends; a loop that waits for another thread ends at once or
never.  A compare-exchange that fails without reason changes nothing and is made again, so it is
left out.

An insertion publishes its element only if the count stands at the index it takes, and a removal
at the end waits for the last element to be there.
-/

namespace Uvent.LockFreeVector

variable {α : Type}

/-! ### The calls -/

/-- A loop that waits for what it has `seen` or not. -/
def spin : Nat → Bool → Option Unit
  | 0, _ => none
  | fuel + 1, seen => if seen then some () else spin fuel seen

/-- What a call returns; `threw` is `std::bad_alloc`. -/
inductive Ret where
  | threw
  | index (i : Nat)
  | bool (b : Bool)
  deriving DecidableEq, Repr

namespace Vec

/-- The bucket of the index is there and its cell is `READY`. -/
def isReady (v : Vec α) (k : Nat) : Bool :=
  match v.cellAt k with
  | some c => decide (c.state = .ready)
  | none => false

/-- The inner loop of `advance_published`. -/
def scan (v : Vec α) : Nat → Nat → Option Nat
  | 0, _ => none
  | fuel + 1, k => if v.isReady k then v.scan fuel (k + 1) else some k

def advancePublished : Nat → Vec α → Option (Vec α)
  | 0, _ => none
  | fuel + 1, v =>
      if v.isReady v.published then
        (v.scan fuel v.published).bind fun k => advancePublished fuel { v with published := k }
      else some v

def shrinkPublishedTail : Nat → Vec α → Option (Vec α)
  | 0, _ => none
  | fuel + 1, v =>
      if v.published = 0 then some v
      else
        match v.cellAt (v.published - 1) with
        | none => some v
        | some c =>
            if c.state = .empty then
              shrinkPublishedTail fuel { v with published := v.published - 1 }
            else some v

def Refused (v : Vec α) (alloc : Bool) (L : Nat) : Prop :=
  v.buckets L = none ∧ (maxBucket < pow2 L ∨ alloc = false)

/-- `ensure_bucket`; `alloc` tells whether the allocation goes well. -/
def ensureBucket (v : Vec α) (alloc : Bool) (L : Nat) : Option (Vec α) :=
  match v.buckets L with
  | some _ => some v
  | none =>
      if maxBucket < pow2 L then none
      else if alloc then some ((v.allocate (pow2 L)).install L v.fresh)
      else none

def emplaceBack (fuel : Nat) (alloc : Bool) (v : Vec α) (x : α) : Option (Ret × Vec α) :=
  let idx := v.allocIdx
  let v := { v with allocIdx := v.allocIdx + 1 }
  match v.ensureBucket alloc (level idx) with
  | none => some (.threw, v)
  | some v =>
      match v.buckets (level idx) with
      | none => none
      | some b =>
          (spin fuel (decide ((v.cells b (offset idx)).state = .empty))).bind fun _ =>
            let v := v.setCell b (offset idx) ⟨.ready, some x⟩
            if idx = v.published then
              (advancePublished fuel v).bind fun v => some (.index idx, v)
            else some (.index idx, v)

def popBack (fuel : Nat) (v : Vec α) : Option (Ret × Vec α) :=
  if v.published = 0 then some (.bool false, v)
  else
    let idx := v.published - 1
    let v := { v with published := idx }
    match v.buckets (level idx) with
    | none => none
    | some b =>
        (spin fuel (decide ((v.cells b (offset idx)).state = .ready))).bind fun _ =>
          some (.bool true, v.setCell b (offset idx) ⟨.empty, none⟩)

def erase (fuel : Nat) (v : Vec α) (i : Nat) : Option (Ret × Vec α) :=
  if v.published ≤ i then some (.bool false, v)
  else
    match v.buckets (level i) with
    | none => some (.bool false, v)
    | some b =>
        match (v.cells b (offset i)).state with
        | .ready =>
            (shrinkPublishedTail fuel (v.setCell b (offset i) ⟨.empty, none⟩)).bind fun v =>
              some (.bool true, v)
        | .empty => some (.bool false, v)
        | .writing | .deleting => (spin fuel false).bind fun _ => some (.bool false, v)

end Vec

inductive Call (α : Type) where
  | emplaceBack (alloc : Bool) (x : α)
  | popBack
  | erase (i : Nat)

def Call.run (fuel : Nat) (v : Vec α) : Call α → Option (Ret × Vec α)
  | .emplaceBack alloc x => v.emplaceBack fuel alloc x
  | .popBack => v.popBack fuel
  | .erase i => v.erase fuel i

def Returns (c : Call α) (v : Vec α) (r : Ret) (v' : Vec α) : Prop :=
  ∃ fuel, c.run fuel v = some (r, v')

/-! ### What they are to do -/

def Cell.element (c : Cell α) : Option α := if c.state = .ready then c.storage else none

def Vec.present (v : Vec α) (i : Nat) : Option α :=
  if i < v.size then (v.cellAt i).bind Cell.element else none

def Call.Effect (v v' : Vec α) (r : Ret) : Call α → Prop
  | .emplaceBack _ x =>
      match r with
      | .threw => v'.size = v.size ∧ ∀ j, v'.present j = v.present j
      | .index i =>
          v.present i = none ∧ ∀ j, v'.present j = if j = i then some x else v.present j
      | .bool _ => False
  | .popBack =>
      r = .bool (decide (v.size ≠ 0)) ∧ v'.size = v.size - 1 ∧
        (v.size ≠ 0 → (v.present (v.size - 1)).isSome = true) ∧
        ∀ j, v'.present j = if j = v.size - 1 then none else v.present j
  | .erase i =>
      r = .bool (v.present i).isSome ∧
        ∀ j, v'.present j = if j = i then none else v.present j

def AllRight : List (Call α) → Vec α → Prop
  | [], _ => True
  | c :: calls, v => ∃ r v', Returns c v r v' ∧ c.Effect v v' r ∧ AllRight calls v'

/-- The count is where the next insertion goes, or the insertion throws; the last element is
there. -/
def Call.Fits (v : Vec α) : Call α → Prop
  | .emplaceBack alloc _ => v.published = v.allocIdx ∨ v.Refused alloc (level v.allocIdx)
  | .popBack => v.size = 0 ∨ v.isReady (v.size - 1) = true
  | .erase _ => True

def AllFit : List (Call α) → Vec α → Prop
  | [], _ => True
  | c :: calls, v => c.Fits v ∧ ∀ r v', Returns c v r v' → AllFit calls v'

/-! ### Fuel -/

section Fuel

variable {v v' : Vec α} {fuel fuel' : Nat} {seen : Bool} {r r' : Ret}

theorem spin_succ (h : spin fuel seen = some ()) : seen = true ∧ spin (fuel + 1) seen = some () := by
  have hseen : seen = true := by
    cases seen with
    | true => rfl
    | false =>
        have hnever : ∀ fuel, spin fuel false = none := by
          intro fuel
          induction fuel with
          | zero => rfl
          | succ fuel ih => exact ih
        rw [hnever] at h
        exact nomatch h
  refine ⟨hseen, ?_⟩
  rw [hseen]
  rfl

theorem scan_succ {k m : Nat} (h : v.scan fuel k = some m) : v.scan (fuel + 1) k = some m := by
  induction fuel generalizing k with
  | zero => exact nomatch h
  | succ fuel ih =>
      rw [Vec.scan] at h ⊢
      split at h
      · rename_i hready
        rw [if_pos hready]
        exact ih h
      · rename_i hstop
        rw [if_neg hstop]
        exact h

theorem advancePublished_succ (h : Vec.advancePublished fuel v = some v') :
    Vec.advancePublished (fuel + 1) v = some v' := by
  induction fuel generalizing v with
  | zero => exact nomatch h
  | succ fuel ih =>
      rw [Vec.advancePublished] at h ⊢
      split at h
      · rename_i hready
        rw [if_pos hready]
        obtain ⟨k, hk, hrest⟩ := Option.bind_eq_some_iff.mp h
        exact Option.bind_eq_some_iff.mpr ⟨k, scan_succ hk, ih hrest⟩
      · rename_i hstop
        rw [if_neg hstop]
        exact h

theorem shrinkPublishedTail_succ (h : Vec.shrinkPublishedTail fuel v = some v') :
    Vec.shrinkPublishedTail (fuel + 1) v = some v' := by
  induction fuel generalizing v with
  | zero => exact nomatch h
  | succ fuel ih =>
      rw [Vec.shrinkPublishedTail] at h ⊢
      split at h
      · rename_i hzero
        rw [if_pos hzero]
        exact h
      · rename_i hpos
        rw [if_neg hpos]
        cases hc : v.cellAt (v.published - 1) with
        | none =>
            rw [hc] at h
            exact h
        | some c =>
            rw [hc] at h
            dsimp only at h ⊢
            split at h
            · rename_i hempty
              rw [if_pos hempty]
              exact ih h
            · rename_i hstop
              rw [if_neg hstop]
              exact h

theorem run_succ {c : Call α} (h : c.run fuel v = some (r, v')) :
    c.run (fuel + 1) v = some (r, v') := by
  cases c with
  | emplaceBack alloc x =>
      change v.emplaceBack fuel alloc x = _ at h
      change v.emplaceBack (fuel + 1) alloc x = _
      unfold Vec.emplaceBack at h ⊢
      dsimp only at h ⊢
      split at h
      · exact h
      · split at h
        · exact h
        · obtain ⟨_, hspin, hrest⟩ := Option.bind_eq_some_iff.mp h
          refine Option.bind_eq_some_iff.mpr ⟨(), (spin_succ hspin).2, ?_⟩
          split at hrest
          · rename_i hown
            rw [if_pos hown]
            obtain ⟨v₁, hadvance, hlast⟩ := Option.bind_eq_some_iff.mp hrest
            exact Option.bind_eq_some_iff.mpr ⟨v₁, advancePublished_succ hadvance, hlast⟩
          · rename_i hother
            rw [if_neg hother]
            exact hrest
  | popBack =>
      change v.popBack fuel = _ at h
      change v.popBack (fuel + 1) = _
      unfold Vec.popBack at h ⊢
      split at h
      · rename_i hzero
        rw [if_pos hzero]
        exact h
      · rename_i hpos
        rw [if_neg hpos]
        dsimp only at h ⊢
        split at h
        · exact nomatch h
        · obtain ⟨_, hspin, hrest⟩ := Option.bind_eq_some_iff.mp h
          exact Option.bind_eq_some_iff.mpr ⟨(), (spin_succ hspin).2, hrest⟩
  | erase i =>
      change v.erase fuel i = _ at h
      change v.erase (fuel + 1) i = _
      unfold Vec.erase at h ⊢
      split at h
      · rename_i hle
        rw [if_pos hle]
        exact h
      · rename_i hlt
        rw [if_neg hlt]
        split at h
        · exact h
        · split at h
          · obtain ⟨v₁, hshrink, hlast⟩ := Option.bind_eq_some_iff.mp h
            exact Option.bind_eq_some_iff.mpr ⟨v₁, shrinkPublishedTail_succ hshrink, hlast⟩
          · exact h
          · obtain ⟨_, hspin, -⟩ := Option.bind_eq_some_iff.mp h
            exact nomatch (spin_succ hspin).1
          · obtain ⟨_, hspin, -⟩ := Option.bind_eq_some_iff.mp h
            exact nomatch (spin_succ hspin).1

theorem run_mono {c : Call α} (hle : fuel ≤ fuel') (h : c.run fuel v = some (r, v')) :
    c.run fuel' v = some (r, v') := by
  induction hle with
  | refl => exact h
  | step _ ih => exact run_succ ih

theorem returns_unique {c : Call α} {v'' : Vec α} (h : Returns c v r v') (h' : Returns c v r' v'') :
    r = r' ∧ v' = v'' := by
  obtain ⟨fuel, hrun⟩ := h
  obtain ⟨fuel', hrun'⟩ := h'
  have heq := (run_mono (Nat.le_max_left fuel fuel') hrun).symm.trans
    (run_mono (Nat.le_max_right fuel fuel') hrun')
  exact Prod.mk.inj (Option.some.inj heq)

end Fuel

end Uvent.LockFreeVector
