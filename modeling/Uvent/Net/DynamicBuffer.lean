import Mathlib.Algebra.Group.Nat.Defs
import Mathlib.Data.List.Basic

/-!
# The growing byte buffer

`DynamicBuffer` as its allocated block and the number of bytes in use.  What `operator new`
returns is arbitrary memory, which `fresh` stands for.
-/

namespace Uvent.Net

abbrev Byte := UInt8

/-- `block` is what `data_` points to, so `cap_` is its length. -/
structure DynamicBuffer where
  block : List Byte
  size : Nat
  size_le : size ≤ block.length

namespace DynamicBuffer

def empty : DynamicBuffer := ⟨[], 0, Nat.le_refl 0⟩

def cap (b : DynamicBuffer) : Nat := b.block.length

def contents (b : DynamicBuffer) : List Byte := b.block.take b.size

@[simp] theorem length_contents (b : DynamicBuffer) : b.contents.length = b.size := by
  rw [contents, List.length_take, Nat.min_eq_left b.size_le]

/-- The loop of `grow_`, of at most `fuel` doublings. -/
def doubled (need : Nat) : Nat → Nat → Nat
  | 0, cap => cap
  | fuel + 1, cap => if cap < need then doubled need fuel (cap * 2) else cap

theorem le_doubled {need : Nat} (fuel cap : Nat) (h : need ≤ cap * 2 ^ fuel) :
    need ≤ doubled need fuel cap := by
  induction fuel generalizing cap with
  | zero => simpa [doubled] using h
  | succ fuel ih =>
      rw [doubled]
      split
      case isTrue =>
        apply ih
        calc need ≤ cap * 2 ^ (fuel + 1) := h
          _ = cap * 2 * 2 ^ fuel := by rw [Nat.pow_succ', Nat.mul_assoc]
      case isFalse hge => exact Nat.le_of_not_lt hge

def grownCap (cap need : Nat) : Nat := doubled need need (if cap = 0 then 4096 else cap)

theorem le_grownCap (cap need : Nat) : need ≤ grownCap cap need := by
  apply le_doubled
  have hpos : 0 < (if cap = 0 then 4096 else cap) := by
    split
    case isTrue => decide
    case isFalse hne => exact Nat.pos_of_ne_zero hne
  calc need ≤ 2 ^ need := Nat.le_of_lt Nat.lt_two_pow_self
    _ ≤ (if cap = 0 then 4096 else cap) * 2 ^ need := Nat.le_mul_of_pos_left _ hpos

/-- `grow_`: a new block that starts with the bytes in use. -/
def grow (fresh : Nat → Byte) (b : DynamicBuffer) (need : Nat) : DynamicBuffer where
  block := b.contents ++ (List.range' b.size (grownCap b.cap need - b.size)).map fresh
  size := b.size
  size_le := by
    rw [List.length_append, length_contents]
    exact Nat.le_add_right _ _

def reserveTail (fresh : Nat → Byte) (b : DynamicBuffer) (len : Nat) : DynamicBuffer :=
  if b.cap < b.size + len then b.grow fresh (b.size + len) else b

/-- Bytes are written at `data_ + size_`. -/
def store (b : DynamicBuffer) (src : List Byte) : DynamicBuffer where
  block := b.contents ++ (src ++ b.block.drop (b.size + src.length))
  size := b.size
  size_le := by
    rw [List.length_append, length_contents]
    exact Nat.le_add_right _ _

/-- `size_ += n`, but no more than `cap_`. -/
def commit (b : DynamicBuffer) (n : Nat) : DynamicBuffer where
  block := b.block
  size := min (b.size + n) b.cap
  size_le := Nat.min_le_right _ _

def append (fresh : Nat → Byte) (b : DynamicBuffer) (src : List Byte) : DynamicBuffer :=
  ((b.reserveTail fresh src.length).store src).commit src.length

variable (fresh : Nat → Byte) (b : DynamicBuffer)

@[simp] theorem size_reserveTail (len : Nat) : (b.reserveTail fresh len).size = b.size := by
  unfold reserveTail
  split <;> rfl

@[simp] theorem contents_reserveTail (len : Nat) :
    (b.reserveTail fresh len).contents = b.contents := by
  unfold reserveTail
  split
  case isTrue => exact List.take_left' b.length_contents
  case isFalse => rfl

theorem room_reserveTail (len : Nat) : b.size + len ≤ (b.reserveTail fresh len).cap := by
  unfold reserveTail
  split
  case isTrue =>
    have hneed := le_grownCap b.cap (b.size + len)
    rw [cap, grow, List.length_append, length_contents, List.length_map, List.length_range']
    omega
  case isFalse hroom => exact Nat.le_of_not_lt hroom

/-- Bytes that fit in the tail and are committed are appended. -/
theorem contents_commit_store {src : List Byte} (h : b.size + src.length ≤ b.cap) :
    ((b.store src).commit src.length).contents = b.contents ++ src := by
  have hcap : (b.store src).cap = b.cap := by
    rw [cap] at h ⊢
    rw [cap, store, List.length_append, List.length_append, length_contents, List.length_drop]
    omega
  have hsize : min (b.size + src.length) (b.store src).cap = (b.contents ++ src).length := by
    rw [hcap, Nat.min_eq_left h, List.length_append, length_contents]
  change (b.contents ++ (src ++ _)).take (min (b.size + src.length) (b.store src).cap) = _
  rw [← List.append_assoc, hsize, List.take_left]

theorem contents_received {src : List Byte} {len : Nat} (h : src.length ≤ len) :
    (((b.reserveTail fresh len).store src).commit src.length).contents = b.contents ++ src := by
  have hroom := b.room_reserveTail fresh len
  rw [contents_commit_store _ (by rw [size_reserveTail]; omega), contents_reserveTail]

@[simp] theorem contents_append (src : List Byte) :
    (b.append fresh src).contents = b.contents ++ src :=
  b.contents_received fresh (Nat.le_refl _)

@[simp] theorem size_append (src : List Byte) :
    (b.append fresh src).size = b.size + src.length := by
  rw [← length_contents, contents_append, List.length_append, length_contents]

end DynamicBuffer

end Uvent.Net
