import Mathlib.Logic.Function.Basic
import Uvent.Array.Locate
import Uvent.Lib.Interleave

/-!
# `LockFreeVector`

The vector itself, and `emplace_back` called by any number of threads: every atomic access is one
step, and so is the construction of an element.  A bucket is known by a number; one that lost the
race for its level is never used again.  No allocation fails, and fewer than `2 ^ 64` calls are
begun.

Kept beside the vector are who has an index, for which element and how far the call has come, who
allocated a bucket, and what the calls returned.
-/

namespace Uvent.LockFreeVector

open Uvent.Lib

inductive CellState where
  | empty
  | writing
  | ready
  | deleting
  deriving DecidableEq, Repr

structure Cell (α : Type) where
  state : CellState
  storage : Option α

/-- `cells b off` is a cell of bucket `b`; the buckets below `fresh` are allocated. -/
structure Vec (α : Type) where
  allocIdx : Nat
  published : Nat
  buckets : Nat → Option Nat
  caps : Nat → Nat
  cells : Nat → Nat → Cell α
  fresh : Nat

def maxBucket : Nat := 2 ^ 24

section Operations

variable {α : Type}

namespace Vec

def new : Vec α := ⟨0, 0, fun _ => none, fun _ => 0, fun _ _ => ⟨.empty, none⟩, 0⟩

def size (v : Vec α) : Nat := v.published

def setCell (v : Vec α) (b off : Nat) (c : Cell α) : Vec α :=
  { v with cells := Function.update v.cells b (Function.update (v.cells b) off c) }

def allocate (v : Vec α) (cap : Nat) : Vec α :=
  { v with
    caps := Function.update v.caps v.fresh cap,
    cells := Function.update v.cells v.fresh fun _ => ⟨.empty, none⟩,
    fresh := v.fresh + 1 }

def install (v : Vec α) (L b : Nat) : Vec α :=
  { v with buckets := Function.update v.buckets L (some b) }

def cellAt (v : Vec α) (index : Nat) : Option (Cell α) :=
  (v.buckets (level index)).map fun b => v.cells b (offset index)

end Vec

inductive Stage (α : Type) where
  | free
  | waiting (t : Nat) (v : α)
  | writing (t : Nat) (v : α)
  | ready (t : Nat) (v : α)
  | returned (v : α)

structure State (α : Type) extends Vec α where
  stage : Nat → Stage α
  maker : Nat → Nat
  returned : List (Nat × α)

namespace State

def new : State α := ⟨.new, fun _ => .free, fun _ => 0, []⟩

def setStage (s : State α) (i : Nat) (st : Stage α) : State α :=
  { s with stage := Function.update s.stage i st }

/-- `alloc_idx_.fetch_add(1)`. -/
def take (s : State α) (t : Nat) (v : α) : State α :=
  { s.setStage s.allocIdx (.waiting t v) with allocIdx := s.allocIdx + 1 }

def allocate (s : State α) (t cap : Nat) : State α :=
  { s with toVec := s.toVec.allocate cap, maker := Function.update s.maker s.fresh t }

def install (s : State α) (L b : Nat) : State α := { s with toVec := s.toVec.install L b }

def setCell (s : State α) (i b : Nat) (c : Cell α) : State α :=
  { s with toVec := s.toVec.setCell b (offset i) c }

/-- `EMPTY` is exchanged for `WRITING`. -/
def claim (s : State α) (t i b : Nat) (v : α) : State α :=
  (s.setCell i b { s.cells b (offset i) with state := .writing }).setStage i (.writing t v)

def construct (s : State α) (i b : Nat) (v : α) : State α :=
  s.setCell i b { s.cells b (offset i) with storage := some v }

def publish (s : State α) (t i b : Nat) (v : α) : State α :=
  (s.setCell i b { s.cells b (offset i) with state := .ready }).setStage i (.ready t v)

def finish (s : State α) (i : Nat) (v : α) : State α :=
  { s.setStage i (.returned v) with returned := (i, v) :: s.returned }

end State

/-- Where a thread is, with its index and its element; the names are those of the access that
comes next. -/
inductive Pc (α : Type) where
  | idle
  | ensure (i : Nat) (v : α)
  | allocate (i : Nat) (v : α)
  | install (i : Nat) (v : α) (cand : Nat)
  | loadBucket (i : Nat) (v : α)
  | loadState (i : Nat) (v : α) (b : Nat)
  | claim (i : Nat) (v : α) (b : Nat)
  | waitReady (i : Nat) (v : α) (b : Nat)
  | construct (i : Nat) (v : α) (b : Nat)
  | publish (i : Nat) (v : α) (b : Nat)
  | check (i : Nat) (v : α)
  | loadCur (i : Nat) (v : α)
  | curBucket (i : Nat) (v : α) (cur : Nat)
  | curState (i : Nat) (v : α) (cur b : Nat)
  | scanBucket (i : Nat) (v : α) (cur scan : Nat)
  | scanState (i : Nat) (v : α) (cur scan b : Nat)
  | advance (i : Nat) (v : α) (cur scan : Nat)

inductive Step (t : Nat) (s : State α) : Pc α → State α → Pc α → Prop where
  | begin (v : α) (room : s.allocIdx + 2 < 2 ^ 64) :
      Step t s .idle (s.take t v) (.ensure s.allocIdx v)
  -- `ensure_bucket`
  | ensureFound (i : Nat) (v : α) (b : Nat) (found : s.buckets (level i) = some b) :
      Step t s (.ensure i v) s (.loadBucket i v)
  | ensureNone (i : Nat) (v : α) (none : s.buckets (level i) = none) :
      Step t s (.ensure i v) s (.allocate i v)
  | allocate (i : Nat) (v : α) (fits : pow2 (level i) ≤ maxBucket) :
      Step t s (.allocate i v) (s.allocate t (pow2 (level i))) (.install i v s.fresh)
  | install (i : Nat) (v : α) (cand : Nat) (none : s.buckets (level i) = none) :
      Step t s (.install i v cand) (s.install (level i) cand) (.loadBucket i v)
  | installLost (i : Nat) (v : α) (cand b : Nat) (found : s.buckets (level i) = some b) :
      Step t s (.install i v cand) s (.loadBucket i v)
  -- the cell
  | loadBucket (i : Nat) (v : α) (b : Nat) (found : s.buckets (level i) = some b) :
      Step t s (.loadBucket i v) s (.loadState i v b)
  | loadEmpty (i : Nat) (v : α) (b : Nat) (empty : (s.cells b (offset i)).state = .empty) :
      Step t s (.loadState i v b) s (.claim i v b)
  | loadBusy (i : Nat) (v : α) (b : Nat) (busy : (s.cells b (offset i)).state ≠ .empty) :
      Step t s (.loadState i v b) s (.loadState i v b)
  | claim (i : Nat) (v : α) (b : Nat) (empty : (s.cells b (offset i)).state = .empty) :
      Step t s (.claim i v b) (s.claim t i b v) (.construct i v b)
  | claimLost (i : Nat) (v : α) (b : Nat) (busy : (s.cells b (offset i)).state ≠ .empty) :
      Step t s (.claim i v b) s (.waitReady i v b)
  | waitBusy (i : Nat) (v : α) (b : Nat) (busy : (s.cells b (offset i)).state ≠ .ready) :
      Step t s (.waitReady i v b) s (.waitReady i v b)
  | waitDone (i : Nat) (v : α) (b : Nat) (ready : (s.cells b (offset i)).state = .ready) :
      Step t s (.waitReady i v b) s (.check i v)
  | construct (i : Nat) (v : α) (b : Nat) :
      Step t s (.construct i v b) (s.construct i b v) (.publish i v b)
  | publish (i : Nat) (v : α) (b : Nat) :
      Step t s (.publish i v b) (s.publish t i b v) (.check i v)
  | checkOther (i : Nat) (v : α) (other : i ≠ s.published) :
      Step t s (.check i v) (s.finish i v) .idle
  | checkOwn (i : Nat) (v : α) (own : i = s.published) : Step t s (.check i v) s (.loadCur i v)
  -- `advance_published`
  | loadCur (i : Nat) (v : α) : Step t s (.loadCur i v) s (.curBucket i v s.published)
  | curNone (i : Nat) (v : α) (cur : Nat) (none : s.buckets (level cur) = none) :
      Step t s (.curBucket i v cur) (s.finish i v) .idle
  | curBucket (i : Nat) (v : α) (cur b : Nat) (found : s.buckets (level cur) = some b) :
      Step t s (.curBucket i v cur) s (.curState i v cur b)
  | curStop (i : Nat) (v : α) (cur b : Nat) (stop : (s.cells b (offset cur)).state ≠ .ready) :
      Step t s (.curState i v cur b) (s.finish i v) .idle
  | curReady (i : Nat) (v : α) (cur b : Nat) (ready : (s.cells b (offset cur)).state = .ready) :
      Step t s (.curState i v cur b) s (.scanBucket i v cur cur)
  | scanNone (i : Nat) (v : α) (cur scan : Nat) (none : s.buckets (level scan) = none) :
      Step t s (.scanBucket i v cur scan) s (.advance i v cur scan)
  | scanBucket (i : Nat) (v : α) (cur scan b : Nat) (found : s.buckets (level scan) = some b) :
      Step t s (.scanBucket i v cur scan) s (.scanState i v cur scan b)
  | scanStop (i : Nat) (v : α) (cur scan b : Nat)
      (stop : (s.cells b (offset scan)).state ≠ .ready) :
      Step t s (.scanState i v cur scan b) s (.advance i v cur scan)
  | scanReady (i : Nat) (v : α) (cur scan b : Nat)
      (ready : (s.cells b (offset scan)).state = .ready) :
      Step t s (.scanState i v cur scan b) s (.scanBucket i v cur (scan + 1))
  | advance (i : Nat) (v : α) (cur scan : Nat) (same : s.published = cur) :
      Step t s (.advance i v cur scan) { s with published := scan } (.loadCur i v)
  -- a weak compare-exchange may also fail without reason
  | advanceFail (i : Nat) (v : α) (cur scan : Nat) :
      Step t s (.advance i v cur scan) s (.loadCur i v)

/-! ### Cells and buckets -/

def Vec.Single (v : Vec α) : Prop :=
  ∀ L L' b, v.buckets L = some b → v.buckets L' = some b → L = L'

section Cells

variable {v : Vec α} {i j b : Nat} {c : Cell α}

theorem cellAt_some (hb : v.buckets (level i) = some b) :
    v.cellAt i = some (v.cells b (offset i)) := by
  unfold Vec.cellAt
  rw [hb]
  rfl

theorem cellAt_setCell_self (hb : v.buckets (level i) = some b) :
    (v.setCell b (offset i) c).cellAt i = some c := by
  rw [cellAt_some (v := v.setCell b (offset i) c) hb]
  change some (Function.update v.cells b _ b (offset i)) = _
  rw [Function.update_self, Function.update_self]

theorem cellAt_setCell_ne (hv : v.Single) (hb : v.buckets (level i) = some b)
    (hi : i + 1 < 2 ^ 64) (hj : j + 1 < 2 ^ 64) (hne : j ≠ i) :
    (v.setCell b (offset i) c).cellAt j = v.cellAt j := by
  unfold Vec.cellAt
  change (v.buckets (level j)).map _ = (v.buckets (level j)).map _
  cases hb' : v.buckets (level j) with
  | none => rfl
  | some b' =>
      refine congrArg some ?_
      change Function.update v.cells b _ b' (offset j) = v.cells b' (offset j)
      by_cases hbucket : b' = b
      · subst hbucket
        have hlevel : level j = level i := hv _ _ _ hb' hb
        have hoffset : offset j ≠ offset i := fun heq =>
          hne (locate_inj hj hi (Prod.ext hlevel heq))
        rw [Function.update_self, Function.update_of_ne hoffset]
      · rw [Function.update_of_ne hbucket]

theorem cellAt_allocate (hv : ∀ L b, v.buckets L = some b → b < v.fresh) (cap j : Nat) :
    (v.allocate cap).cellAt j = v.cellAt j := by
  unfold Vec.cellAt
  change (v.buckets (level j)).map _ = (v.buckets (level j)).map _
  cases hb : v.buckets (level j) with
  | none => rfl
  | some b =>
      have hne : b ≠ v.fresh := Nat.ne_of_lt (hv _ _ hb)
      refine congrArg some ?_
      change Function.update v.cells v.fresh _ b (offset j) = v.cells b (offset j)
      rw [Function.update_of_ne hne]

/-- The level of a bucket that comes is the only one that changes. -/
theorem cellAt_install_ne {L : Nat} (hL : level j ≠ L) : (v.install L b).cellAt j = v.cellAt j := by
  unfold Vec.cellAt
  change (Function.update v.buckets L (some b) (level j)).map _ = _
  rw [Function.update_of_ne hL]
  rfl

theorem cellAt_install_self {L : Nat} (hL : level j = L) :
    (v.install L b).cellAt j = some (v.cells b (offset j)) := by
  have hb : (v.install L b).buckets (level j) = some b := by
    rw [hL]
    exact Function.update_self ..
  exact cellAt_some hb

theorem Vec.Single.install {L : Nat} (hv : v.Single) (hb : ∀ L', v.buckets L' ≠ some b) :
    (v.install L b).Single := by
  intro L₁ L₂ b' h₁ h₂
  change Function.update v.buckets L (some b) L₁ = some b' at h₁
  change Function.update v.buckets L (some b) L₂ = some b' at h₂
  by_cases hL₁ : L₁ = L
  · by_cases hL₂ : L₂ = L
    · rw [hL₁, hL₂]
    · rw [hL₁, Function.update_self] at h₁
      rw [Function.update_of_ne hL₂, ← h₁] at h₂
      exact absurd h₂ (hb L₂)
  · by_cases hL₂ : L₂ = L
    · rw [hL₂, Function.update_self] at h₂
      rw [Function.update_of_ne hL₁, ← h₂] at h₁
      exact absurd h₁ (hb L₁)
    · rw [Function.update_of_ne hL₁] at h₁
      rw [Function.update_of_ne hL₂] at h₂
      exact hv _ _ _ h₁ h₂

end Cells

abbrev Runs (w : World Nat (State α) (Pc α)) : Prop :=
  Interleaved Step State.new .idle w

end Operations

end Uvent.LockFreeVector
