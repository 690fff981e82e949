import Uvent.Lib.Interleave

/-!
# The segmented queue

Any number of producers and consumers on one `SegmentedMPMCQueue`; every atomic
access of the source is one step.  A segment is named by its place in the chain,
so that `next` of segment `k` is set exactly when a segment `k + 1` is linked,
and its `base` is `k * SegmentSize`; a segment somebody may still reach is not
recycled.

Each position also keeps what happened to it: who claimed it to put what, or
that it was burnt, which consumer claimed it, and what was moved out of it.
-/

namespace Uvent.Queue.Segmented

open Uvent.Lib

inductive CellState where
  | empty
  | full
  | dead
  deriving DecidableEq, Repr

/-- A position is claimed by a producer, in one of its calls and for an element,
or burnt by a consumer, or neither yet. -/
inductive Fate (α : Type) where
  | free
  | put (producer op : Nat) (v : α)
  | burnt

structure Segment (α : Type) where
  enqPos : Nat
  deqPos : Nat
  state : Nat → CellState
  storage : Nat → Option α
  fate : Nat → Fate α
  taker : Nat → Option Nat
  got : Nat → List (Nat × Option α)

def Segment.new {α : Type} : Segment α :=
  ⟨0, 0, fun _ => .empty, fun _ => none, fun _ => .free, fun _ => none, fun _ => []⟩

inductive Event where
  | called (op : Nat)
  | returned (op : Nat)
  deriving DecidableEq, Repr

/-- The shared state: the segments `0` to `last` are linked.  Of every call of a
producer it keeps the thread, the elements it was given and those it has found a
position for, and where the tail was when it began. -/
structure Chain (α : Type) where
  segs : Nat → Segment α
  last : Nat
  head : Nat
  tail : Nat
  opCount : Nat
  runner : Nat → Nat
  args : Nat → List α
  sent : Nat → List α
  born : Nat → Nat
  history : List Event

def Chain.new {α : Type} : Chain α :=
  ⟨fun _ => .new, 0, 0, 0, 0, fun _ => 0, fun _ => [], fun _ => [], fun _ => 0, []⟩

/-- Where a thread is.  `carry` is the `value` pointer of `advance_tail`, which
`do_enqueue` passes and `enqueue_bulk` does not; `vs` are the elements that are
not published yet.  A consumer wants `max` elements, or one from `try_dequeue`;
`out` is what it has moved out. -/
inductive Pc (α : Type) where
  | idle
  | protectTail (carry : Bool) (op : Nat) (vs : List α)
  | claim (carry : Bool) (op s : Nat) (vs : List α)
  | publish (carry : Bool) (op s i stop : Nat) (beyond : Bool) (vs : List α)
  | loadNext (carry : Bool) (op s : Nat) (vs : List α)
  | link (carry : Bool) (op s : Nat) (fresh : Segment α) (vs : List α)
  | swing (carry : Bool) (op s : Nat) (vs : List α)
  | swingLast (op s : Nat)
  | protectHead (max : Option Nat)
  | loadDeq (max : Option Nat) (s : Nat)
  | scan (max : Option Nat) (s d limit ready : Nat)
  | checkEmpty (max : Option Nat) (s d : Nat)
  | casDeq (max : Option Nat) (s d : Nat)
  | addDeq (max : Option Nat) (s n : Nat)
  | takeState (max : Option Nat) (s i stop : Nat) (out : List (Option α))
  | takeEnq (max : Option Nat) (s i stop : Nat) (out : List (Option α))
  | takeCas (max : Option Nat) (s i stop e : Nat) (out : List (Option α))
  | burn (max : Option Nat) (s j i stop : Nat) (out : List (Option α))
  | consume (max : Option Nat) (s i stop : Nat) (out : List (Option α))
  | loadHeadNext (max : Option Nat) (s : Nat)
  | swingHead (max : Option Nat) (s : Nat)

section Operations

variable {α : Type} (size : Nat)

namespace Segment

/-- `enq_pos.fetch_add`, with the positions it claims inside the segment. -/
def claimCells (t op : Nat) (vs : List α) (seg : Segment α) : Segment α :=
  { seg with
    enqPos := seg.enqPos + vs.length,
    fate := fun i =>
      if seg.enqPos ≤ i ∧ i < size then
        match vs[i - seg.enqPos]? with
        | some v => .put t op v
        | none => seg.fate i
      else seg.fate i }

def publishCell (i : Nat) (v : α) (seg : Segment α) : Segment α :=
  { seg with
    state := Function.update seg.state i .full,
    storage := Function.update seg.storage i (some v) }

/-- `deq_pos` goes up by `n`, with the positions that claims inside the segment. -/
def claimTaken (t n : Nat) (seg : Segment α) : Segment α :=
  { seg with
    deqPos := seg.deqPos + n,
    taker := fun i =>
      if seg.deqPos ≤ i ∧ i < min (seg.deqPos + n) size then some t else seg.taker i }

/-- The CAS of `take_cell` on `enq_pos`, which closes the cells `e` to `pos` for
producers. -/
def burnCells (e pos : Nat) (seg : Segment α) : Segment α :=
  { seg with
    enqPos := pos + 1,
    fate := fun i => if e ≤ i ∧ i ≤ pos then .burnt else seg.fate i }

def markDead (j : Nat) (seg : Segment α) : Segment α :=
  { seg with state := Function.update seg.state j .dead }

/-- `consume_cell` moves the element out and leaves the state as it is. -/
def consumeCell (t i : Nat) (seg : Segment α) : Segment α :=
  { seg with
    storage := Function.update seg.storage i none,
    got := Function.update seg.got i ((t, seg.storage i) :: seg.got i) }

end Segment

namespace Chain

def modifySeg (q : Chain α) (s : Nat) (f : Segment α → Segment α) : Chain α :=
  { q with segs := Function.update q.segs s (f (q.segs s)) }

def send (q : Chain α) (op : Nat) (vs : List α) : Chain α :=
  { q with sent := Function.update q.sent op (q.sent op ++ vs) }

def low (q : Chain α) : Nat := q.tail * size + min (q.segs q.tail).enqPos size

def begin (q : Chain α) (t : Nat) (vs : List α) : Chain α :=
  { q with
    opCount := q.opCount + 1,
    runner := Function.update q.runner q.opCount t,
    args := Function.update q.args q.opCount vs,
    sent := Function.update q.sent q.opCount [],
    born := Function.update q.born q.opCount (q.low size),
    history := .called q.opCount :: q.history }

def finish (q : Chain α) (op : Nat) : Chain α := { q with history := .returned op :: q.history }

def claimCells (q : Chain α) (t op s : Nat) (vs : List α) : Chain α :=
  (q.modifySeg s (Segment.claimCells size t op vs)).send op (vs.take (size - (q.segs s).enqPos))

/-- The CAS on `next` that links a fresh segment behind `s`. -/
def append (q : Chain α) (op s : Nat) (fresh : Segment α) : Chain α :=
  { (q.modifySeg (s + 1) fun _ => fresh).send op (fresh.storage 0).toList with last := s + 1 }

def swingTail (q : Chain α) (s : Nat) : Chain α :=
  if q.tail = s then { q with tail := s + 1 } else q

def swingHead (q : Chain α) (s : Nat) : Chain α :=
  if q.head = s then { q with head := s + 1 } else q

end Chain

/-- The segment `advance_tail` builds, with the element it carries in its first
cell. -/
def freshSegment (t op : Nat) : Option α → Segment α
  | none => .new
  | some v =>
      { Segment.new with
        enqPos := 1,
        state := Function.update (fun _ => .empty) 0 .full,
        storage := Function.update (fun _ => none) 0 (some v),
        fate := Function.update (fun _ => .free) 0 (.put t op v) }

/-- `while (done < n)`; a producer with nothing left returns. -/
def nextClaim (q : Chain α) (carry : Bool) (op s : Nat) : List α → Chain α × Pc α
  | [] => (q.finish op, .idle)
  | v :: vs => (q, .claim carry op s (v :: vs))

def nextTake (q : Chain α) (max : Option Nat) (s i stop : Nat) (out : List (Option α)) :
    Chain α × Pc α :=
  if i < stop then (q, .takeState max s i stop out)
  else if out.isEmpty then (q, .loadDeq max s)
  else (q, .idle)

/-- How many cells are looked at before a claim; `try_dequeue` looks at two. -/
def lookahead (max : Option Nat) (d : Nat) : Nat := min (size - d) (max.getD 2)

/-- What a scan with `ready` full cells leads to. -/
def afterScan (max : Option Nat) (s d ready : Nat) : Pc α :=
  if ready = 0 then .checkEmpty max s d
  else if ready = 1 then .casDeq max s d
  else .addDeq max s (if max.isNone then 1 else ready)

/-- One step of thread `t`.  `spurious` is a weak CAS that fails without reason. -/
def exec (t : Nat) (spurious : Bool) (q : Chain α) : Pc α → Chain α × Pc α
  | .idle => (q, .idle)
  | .protectTail carry op vs => nextClaim q carry op q.tail vs
  | .claim carry op s vs =>
      let pos := (q.segs s).enqPos
      (q.claimCells size t op s vs,
        if size ≤ pos then .loadNext carry op s vs
        else .publish carry op s pos (min (pos + vs.length) size)
          (decide (pos + vs.length > size)) vs)
  | .publish carry op s i stop beyond vs =>
      if i < stop then
        match vs with
        | v :: vs => (q.modifySeg s (.publishCell i v), .publish carry op s (i + 1) stop beyond vs)
        | [] => (q, .publish carry op s i stop beyond [])
      else if beyond then (q, .loadNext carry op s vs)
      else nextClaim q carry op s vs
  | .loadNext carry op s vs =>
      if s < q.last then (q, .swing carry op s vs)
      else if carry then (q, .link carry op s (freshSegment t op vs.head?) vs.tail)
      else (q, .link carry op s (freshSegment t op none) vs)
  | .link carry op s fresh vs =>
      if s = q.last then
        (q.append op s fresh, if carry then .swingLast op s else .swing carry op s vs)
      else (q, .swing carry op s ((fresh.storage 0).toList ++ vs))
  | .swing carry op s vs => (q.swingTail s, .protectTail carry op vs)
  | .swingLast op s => ((q.swingTail s).finish op, .idle)
  | .protectHead max => (q, .loadDeq max q.head)
  | .loadDeq max s =>
      let d := (q.segs s).deqPos
      if size ≤ d then (q, .loadHeadNext max s) else (q, .scan max s d (lookahead size max d) 0)
  | .scan max s d limit ready =>
      if ready < limit ∧ (q.segs s).state (d + ready) = .full then
        (q, .scan max s d limit (ready + 1))
      else (q, afterScan max s d ready)
  | .checkEmpty max s d =>
      if (q.segs s).enqPos ≤ d then (q, .idle) else (q, .loadDeq max s)
  | .casDeq max s d =>
      if (q.segs s).deqPos = d ∧ spurious = false then
        (q.modifySeg s (.claimTaken size t 1), .consume max s d (d + 1) [])
      else (q, .loadDeq max s)
  | .addDeq max s n =>
      let pos := (q.segs s).deqPos
      (q.modifySeg s (.claimTaken size t n),
        if size ≤ pos then .loadDeq max s else .takeState max s pos (min (pos + n) size) [])
  | .takeState max s i stop out =>
      match (q.segs s).state i with
      | .empty => (q, .takeEnq max s i stop out)
      | .full => (q, .consume max s i stop out)
      | .dead => nextTake q max s (i + 1) stop out
  | .takeEnq max s i stop out =>
      let e := (q.segs s).enqPos
      if i < e then (q, .takeState max s i stop out) else (q, .takeCas max s i stop e out)
  | .takeCas max s i stop e out =>
      if (q.segs s).enqPos = e ∧ spurious = false then
        (q.modifySeg s (.burnCells e i), .burn max s e i stop out)
      else (q, .takeEnq max s i stop out)
  | .burn max s j i stop out =>
      if j ≤ i then (q.modifySeg s (.markDead j), .burn max s (j + 1) i stop out)
      else nextTake q max s (i + 1) stop out
  | .consume max s i stop out =>
      nextTake (q.modifySeg s (.consumeCell t i)) max s (i + 1) stop (out ++ [(q.segs s).storage i])
  | .loadHeadNext max s => if s < q.last then (q, .swingHead max s) else (q, .idle)
  | .swingHead max s => (q.swingHead s, .protectHead max)

inductive Call (α : Type) where
  | enqueue (v : α)
  | enqueueBulk (vs : List α)
  | tryDequeue
  | tryDequeueBulk (maxItems : Nat)

/-- A call begins; an empty batch and a dequeue of no item return at once. -/
def Call.start (t : Nat) (q : Chain α) : Call α → Chain α × Pc α
  | .enqueue v => (q.begin size t [v], .protectTail true q.opCount [v])
  | .enqueueBulk [] => (q, .idle)
  | .enqueueBulk (v :: vs) =>
      (q.begin size t (v :: vs), .protectTail false q.opCount (v :: vs))
  | .tryDequeue => (q, .protectHead none)
  | .tryDequeueBulk maxItems => if maxItems = 0 then (q, .idle) else (q, .protectHead (some maxItems))

inductive Step (t : Nat) (q : Chain α) : Pc α → Chain α → Pc α → Prop where
  | call (c : Call α) : Step t q .idle (c.start size t q).1 (c.start size t q).2
  | run (spurious : Bool) (pc : Pc α) (busy : pc ≠ .idle) :
      Step t q pc (exec size t spurious q pc).1 (exec size t spurious q pc).2

end Operations

abbrev Runs {α : Type} (size : Nat) (w : World Nat (Chain α) (Pc α)) : Prop :=
  Interleaved (Step size) Chain.new .idle w

end Uvent.Queue.Segmented
