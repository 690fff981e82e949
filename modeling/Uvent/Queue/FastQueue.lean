import Uvent.Queue.MpmcQueue
import Uvent.Lib.RingBuffer

/-!
# `single_thread::Queue`

The run queues of the runtime are growable rings.  `head` and `tail` only count
up, modulo `2^64`; a cell is found by masking them; `grow` moves the elements to
a block of twice the size and restarts the indices at zero, and so does a queue
that becomes empty.  Elements that can be copied as bytes move by one `memcpy`
or, around the end of the block, by two.

The module embeds every operation together with the block it works on, and
compares the queue with a list.  An access outside the block, a read of a cell in
which no object is alive, and a growth loop that does not end are `undefined`.
-/

namespace Uvent.SingleThread

open Uvent.Lib.RingBuffer

abbrev SizeT := BitVec 64

structure ElementType where
  sizeof : SizeT
  triviallyCopyable : Bool
  triviallyDestructible : Bool
  sizeof_pos : 0 < sizeof.toNat

/-- `buffer` holds the objects alive in the block, which has space for `room`
elements. -/
structure Queue (α : Type) where
  buffer : Nat → Option α
  room : Nat
  capacity : SizeT
  head : SizeT
  tail : SizeT
  mask : SizeT

/-- How an operation ends: it returns, `std::bad_alloc` leaves it, or its
behaviour is undefined. -/
inductive Outcome (α ρ : Type) where
  | returned (result : ρ) (q : Queue α)
  | badAlloc (q : Queue α)
  | undefined

/-- `next_pow2`: wraps to `0` above `2^63`. -/
def nextPow2 (x : SizeT) : SizeT :=
  if x = 0 then 1
  else
    let x := x - 1
    let x := x ||| (x >>> 1)
    let x := x ||| (x >>> 2)
    let x := x ||| (x >>> 4)
    let x := x ||| (x >>> 8)
    let x := x ||| (x >>> 16)
    let x := x ||| (x >>> 32)
    x + 1

/-- `alloc_items`: how many elements the block has space for.  `grants` are the
allocator's answers to requests of so many bytes; an object is smaller than
`2^63` bytes. -/
def allocItems (T : ElementType) (grants : SizeT → Bool) (n : SizeT) : Option Nat :=
  let bytes := T.sizeof * n
  if bytes.toNat < 2 ^ 63 ∧ grants bytes = true then some (bytes.toNat / T.sizeof.toNat) else none

namespace Queue

variable {α : Type}

/-- The constructor, `allocate(initial_capacity)`. -/
def allocate (T : ElementType) (grants : SizeT → Bool) (cap : SizeT) : Option (Queue α) :=
  (allocItems T grants (nextPow2 cap)).map fun room =>
    { buffer := fun _ => none, room
      capacity := nextPow2 cap, head := 0, tail := 0, mask := nextPow2 cap - 1 }

def size (q : Queue α) : SizeT := q.tail - q.head

def empty (q : Queue α) : Bool := decide (q.head = q.tail)

def index (q : Queue α) (pos : SizeT) : Nat := (pos &&& q.mask).toNat

def load (q : Queue α) (i : Nat) : Option α := if i < q.room then q.buffer i else none

/-- Placement `new` in a cell. -/
def construct (q : Queue α) (i : Nat) (item : α) : Option (Queue α) :=
  if i < q.room then some { q with buffer := Function.update q.buffer i (some item) } else none

def destroy (q : Queue α) (i : Nat) : Queue α :=
  { q with buffer := Function.update q.buffer i none }

/-- `memcpy` of the first `n` of the given elements to the cells from `i` on. -/
def memcpyIn (q : Queue α) (i : Nat) (items : List α) (n : Nat) : Option (Queue α) :=
  if i + n ≤ q.room ∧ n ≤ items.length then
    some { q with buffer := splice q.buffer i (items.take n) }
  else none

/-- `memcpy` of `n` elements out of the cells from `i` on. -/
def memcpyOut (q : Queue α) (i n : Nat) : Option (List α) :=
  (List.range n).mapM fun j => q.load (i + j)

/-- The elements of `n` cells, read one by one from position `start` on. -/
def moveOut (q : Queue α) (start : SizeT) (n : Nat) : Option (List α) :=
  (List.range n).mapM fun i => q.load (q.index (start + BitVec.ofNat 64 i))

def grow (T : ElementType) (grants : SizeT → Bool) (q : Queue α) : Outcome α Unit :=
  let newCap := q.capacity * 2
  match allocItems T grants newCap with
  | none => .badAlloc q
  | some room =>
      match q.moveOut q.head q.size.toNat with
      | none => .undefined
      | some items =>
          if items.length ≤ room then
            .returned ()
              { buffer := fun i => items[i]?, room
                capacity := newCap, head := 0, tail := q.size, mask := newCap - 1 }
          else .undefined

def growWhile (T : ElementType) (grants : SizeT → Bool) (need : SizeT) :
    Nat → Queue α → Outcome α Unit
  | 0, _ => .undefined
  | fuel + 1, q =>
      if need ≤ q.capacity then .returned () q
      else
        match q.grow T grants with
        | .returned _ q' => growWhile T grants need fuel q'
        | .badAlloc q' => .badAlloc q'
        | .undefined => .undefined

/-- The capacity doubles each time and is below `2^64`: either the loop ends
within so many rounds, or it is stuck at capacity `0`. -/
def enoughGrowth : Nat := 64

def normalizeIfEmpty (q : Queue α) : Queue α :=
  if q.head = q.tail then { q with head := 0, tail := 0 } else q

/-- The body `enqueue` and `emplace` share: construct one element at the tail. -/
def constructAtTail (T : ElementType) (grants : SizeT → Bool) (q : Queue α) (item : α) :
    Outcome α Unit :=
  let grown := if q.tail - q.head = q.capacity then q.grow T grants else .returned () q
  match grown with
  | .undefined => .undefined
  | .badAlloc q => .badAlloc q
  | .returned _ q =>
      match q.construct (q.index q.tail) item with
      | none => .undefined
      | some q' => .returned () { q' with tail := q.tail + 1 }

def enqueue (T : ElementType) (grants : SizeT → Bool) (q : Queue α) (item : α) :
    Outcome α Unit :=
  q.constructAtTail T grants item

/-- `made` is the element its arguments construct. -/
def emplace (T : ElementType) (grants : SizeT → Bool) (q : Queue α) (made : α) :
    Outcome α Unit :=
  q.constructAtTail T grants made

def constructAll (start : SizeT) : Nat → List α → Queue α → Option (Queue α)
  | _, [], q => some q
  | i, item :: items, q =>
      (q.construct (q.index (start + BitVec.ofNat 64 i)) item).bind
        (constructAll start (i + 1) items)

/-- The `memcpy` branch of `enqueue_bulk`: one segment where the masked end is
past the masked start, else two. -/
def copyAll (q : Queue α) (src : List α) (count : SizeT) : Option (Queue α) :=
  let s := q.tail &&& q.mask
  let e := (q.tail + count) &&& q.mask
  if s < e then q.memcpyIn s.toNat src count.toNat
  else
    let firstPart := q.capacity - s
    (q.memcpyIn s.toNat src firstPart.toNat).bind fun q =>
      q.memcpyIn 0 (src.drop firstPart.toNat) (count - firstPart).toNat

/-- The body the two bulk calls share: grow, store every element by `store`, move
the tail. -/
def storeBulk (T : ElementType) (grants : SizeT → Bool) (q : Queue α) (items : List α)
    (store : Queue α → SizeT → Option (Queue α)) : Outcome α SizeT :=
  let count := BitVec.ofNat 64 items.length
  if count = 0 then .returned 0 q
  else
    match growWhile T grants (q.size + count) enoughGrowth q with
    | .undefined => .undefined
    | .badAlloc q => .badAlloc q
    | .returned _ q =>
        match store q count with
        | none => .undefined
        | some q' => .returned count { q' with tail := q.tail + count }

/-- `enqueue_bulk(src, count)`; `sameType` where `U` is `T` up to `const`. -/
def enqueueBulk (T : ElementType) (grants : SizeT → Bool) (sameType : Bool) (q : Queue α)
    (src : List α) : Outcome α SizeT :=
  q.storeBulk T grants src fun q count =>
    if T.triviallyCopyable && sameType then q.copyAll src count
    else constructAll q.tail 0 src q

/-- `enqueue_bulk_emplace(count, arrays...)`; `made` are the elements the entries
of the arrays construct. -/
def enqueueBulkEmplace (T : ElementType) (grants : SizeT → Bool) (q : Queue α)
    (made : List α) : Outcome α SizeT :=
  q.storeBulk T grants made fun q _ => constructAll q.tail 0 made q

/-- `dequeue`; the result is what was moved into `item`, if anything. -/
def dequeue (T : ElementType) (q : Queue α) : Outcome α (Option α) :=
  if q.head = q.tail then .returned none q
  else
    match q.load (q.index q.head) with
    | none => .undefined
    | some item =>
        let q' := if T.triviallyDestructible then q else q.destroy (q.index q.head)
        .returned (some item) { q' with head := q.head + 1 }.normalizeIfEmpty

/-- The `memcpy` branch of `dequeue_bulk`. -/
def copyOut (q : Queue α) (count : SizeT) : Option (List α) :=
  let s := q.head &&& q.mask
  let e := (q.head + count) &&& q.mask
  if s < e then q.memcpyOut s.toNat count.toNat
  else
    let firstPart := q.capacity - s
    (q.memcpyOut s.toNat firstPart.toNat).bind fun first =>
      (q.memcpyOut 0 (count - firstPart).toNat).map fun rest => first ++ rest

/-- The loop that destroys `n` elements from position `start + i` on. -/
def destroyAll (start : SizeT) : Nat → Nat → Queue α → Queue α
  | _, 0, q => q
  | i, n + 1, q =>
      destroyAll start (i + 1) n (q.destroy (q.index (start + BitVec.ofNat 64 i)))

/-- `dequeue_bulk(out, max_count)`: the count, and what was stored in `out`. -/
def dequeueBulk (T : ElementType) (q : Queue α) (maxCount : SizeT) :
    Outcome α (SizeT × List α) :=
  let available := q.tail - q.head
  if available = 0 ∨ maxCount = 0 then .returned (0, []) q
  else
    let count := if available < maxCount then available else maxCount
    let out :=
      if T.triviallyCopyable then q.copyOut count else q.moveOut q.head count.toNat
    match out with
    | none => .undefined
    | some items =>
        let q' := if T.triviallyCopyable then q else destroyAll q.head 0 count.toNat q
        .returned (count, items) { q' with head := q.head + count }.normalizeIfEmpty

end Queue

/-! ## Calls, and the list they should behave like -/

/-- The elements of a bulk call; their number is a `size_t`. -/
structure Batch (α : Type) where
  items : List α
  fits : items.length < 2 ^ 64

inductive Call (α : Type) where
  | enqueue (item : α)
  | emplace (made : α)
  | enqueueBulk (sameType : Bool) (src : Batch α)
  | enqueueBulkEmplace (made : Batch α)
  | dequeue
  | dequeueBulk (maxCount : SizeT)
  | size
  | empty

inductive Answer (α : Type) where
  | done
  | count (n : Nat)
  | taken (item : Option α)
  | drained (n : Nat) (items : List α)
  | flag (b : Bool)
  deriving DecidableEq

section Calls

variable {α : Type}

def Outcome.map {ρ τ : Type} (f : ρ → τ) : Outcome α ρ → Outcome α τ
  | .returned r q => .returned (f r) q
  | .badAlloc q => .badAlloc q
  | .undefined => .undefined

def Call.exec (T : ElementType) (grants : SizeT → Bool) (q : Queue α) :
    Call α → Outcome α (Answer α)
  | .enqueue item => (q.enqueue T grants item).map fun _ => .done
  | .emplace made => (q.emplace T grants made).map fun _ => .done
  | .enqueueBulk sameType src => (q.enqueueBulk T grants sameType src.items).map fun n => .count n.toNat
  | .enqueueBulkEmplace made =>
      (q.enqueueBulkEmplace T grants made.items).map fun n => .count n.toNat
  | .dequeue => (q.dequeue T).map .taken
  | .dequeueBulk maxCount => (q.dequeueBulk T maxCount).map fun r => .drained r.1.toNat r.2
  | .size => .returned (.count q.size.toNat) q
  | .empty => .returned (.flag q.empty) q

def Call.spec (xs : List α) : Call α → Answer α × List α
  | .enqueue item => (.done, xs ++ [item])
  | .emplace made => (.done, xs ++ [made])
  | .enqueueBulk _ src => (.count src.items.length, xs ++ src.items)
  | .enqueueBulkEmplace made => (.count made.items.length, xs ++ made.items)
  | .dequeue => (.taken xs.head?, xs.tail)
  | .dequeueBulk maxCount =>
      (.drained (min xs.length maxCount.toNat) (xs.take maxCount.toNat), xs.drop maxCount.toNat)
  | .size => (.count xs.length, xs)
  | .empty => (.flag xs.isEmpty, xs)

def Call.adds : Call α → Nat
  | .enqueue _ => 1
  | .emplace _ => 1
  | .enqueueBulk _ src => src.items.length
  | .enqueueBulkEmplace made => made.items.length
  | _ => 0

def Call.Refused (T : ElementType) (grants : SizeT → Bool) (xs : List α) (call : Call α) : Prop :=
  0 < call.adds ∧
    ∃ n : SizeT, n.toNat < 2 * (xs.length + call.adds) ∧ allocItems T grants n = none

structure Step (α : Type) where
  call : Call α
  grants : SizeT → Bool

/-- Every call answers as the list does and leaves what the list is then, and a
call that ends in `std::bad_alloc`, for want of memory, leaves the list as it was. -/
def InStep (T : ElementType) : Queue α → List α → List (Step α) → Prop
  | _, _, [] => True
  | q, xs, step :: rest =>
      match step.call.exec T step.grants q with
      | .returned answer q' =>
          answer = (step.call.spec xs).1 ∧ InStep T q' (step.call.spec xs).2 rest
      | .badAlloc q' => step.call.Refused T step.grants xs ∧ InStep T q' xs rest
      | .undefined => False

/-- Before every call, what is in the queue and what the call adds are together a
`size_t`. -/
def CountsFit (T : ElementType) : Queue α → List (Step α) → Prop
  | _, [] => True
  | q, step :: rest =>
      q.size.toNat + step.call.adds < 2 ^ 64 ∧
        match step.call.exec T step.grants q with
        | .returned _ q' => CountsFit T q' rest
        | .badAlloc q' => CountsFit T q' rest
        | .undefined => True

/-- The constructor's block has the cells of its capacity: rounding up and the
size in bytes do not wrap. -/
def Allocatable (T : ElementType) (cap : SizeT) : Prop :=
  cap.toNat ≤ 2 ^ 63 ∧ T.sizeof.toNat * (nextPow2 cap).toNat < 2 ^ 64

instance (T : ElementType) (cap : SizeT) : Decidable (Allocatable T cap) :=
  inferInstanceAs (Decidable (_ ∧ _))

end Calls

end Uvent.SingleThread
