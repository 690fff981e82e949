import Uvent.Queue.SegmentedQueue
import Uvent.Reclaim.HazardRuns

/-!
# Recycling segments

The segmented queue over the `HazardDomain`.  A call of `protect`, of `retire` or of
`local_record` is made of the steps of the domain, which other users and scans run beside; what
the queue reads through the domain are source 0, its `head_`, and source 1, its `tail_`.

A segment is still named by its place in the chain.  Places keep the address the segment was
taken at, and how many objects had been deleted there by then; a segment that was handed to its
deleter may be taken again, for another place.  `seen` is the place that `protect` loaded last.
-/

namespace Uvent.Queue.Recycling

open Uvent.Lib
open Uvent.Queue.Segmented
open Uvent.Reclaim

/-- `fresh` is a segment that is taken and not linked, and `retiring` one that `advance_head` has
yet to retire. -/
structure State (α : Type) where
  queue : Chain α
  domain : Hazard.State
  pc : Nat → Pc α
  addr : Nat → Nat
  birth : Nat → Nat
  seen : Nat → Nat
  fresh : Nat → Option Nat
  retiring : Nat → Option Nat

variable {α : Type}

/-- The segment that a thread has from `protect` and may use. -/
def uses : Pc α → Option Nat
  | .idle | .protectTail .. | .protectHead _ => none
  | .claim _ _ s _ | .publish _ _ s .. | .loadNext _ _ s _ | .link _ _ s .. | .swing _ _ s _
  | .swingLast _ s | .loadDeq _ s | .scan _ s .. | .checkEmpty _ s _ | .casDeq _ s _
  | .addDeq _ s _ | .takeState _ s .. | .takeEnq _ s .. | .takeCas _ s .. | .burn _ s ..
  | .consume _ s .. | .loadHeadNext _ s | .swingHead _ s => some s

def source : Pc α → Option Nat
  | .protectHead _ => some 0
  | .protectTail .. => some 1
  | _ => none

/-- A step takes or links a segment, or moves `head_`. -/
def moves : Pc α → Bool
  | .loadNext .. | .link .. | .swingHead .. => true
  | _ => false

/-- `protect` has returned the segment at place `k`. -/
def obtained (q : Chain α) (k : Nat) : Pc α → Chain α × Pc α
  | .protectTail carry op vs => nextClaim q carry op k vs
  | .protectHead max => (q, .loadDeq max k)
  | pc => (q, pc)

namespace State

def new : State α where
  queue := .new
  domain :=
    { Hazard.State.new with
      src := Function.update (Function.update Hazard.State.new.src 0 (some 0)) 1 (some 0) }
  pc := fun _ => .idle
  addr := fun _ => 0
  birth := fun _ => 0
  seen := fun _ => 0
  fresh := fun _ => none
  retiring := fun _ => none

def segment (s : State α) (k : Nat) : Hazard.Retired := ⟨s.addr k, s.birth k⟩

def Live (s : State α) (k : Nat) : Prop := k ≤ s.queue.last ∧ s.segment k ∉ s.domain.deleted

def Owned (s : State α) (p : Nat) : Prop :=
  (∃ k, s.Live k ∧ s.addr k = p) ∨ ∃ t, s.fresh t = some p

/-- Another user of the domain stores to its own pointers and retires its own objects. -/
def Foreign (s : State α) : Hazard.Event → Prop
  | .store a _ => 2 ≤ a
  | .retire p => ¬ s.Owned p
  | _ => True

def setQueue (s : State α) (t : Nat) (next : Chain α × Pc α) : State α :=
  { s with
    queue := next.1,
    pc := Function.update s.pc t next.2,
    domain :=
      { s.domain with
        src := Function.update
          (Function.update s.domain.src 0 (some (s.addr next.1.head))) 1
          (some (s.addr next.1.tail)) } }

def inside (s : State α) (t : Nat) (e : Hazard.Event) (d : Hazard.State) : State α :=
  { s with
    domain := d,
    seen :=
      match e with
      | .load 0 => Function.update s.seen t s.queue.head
      | .load _ => Function.update s.seen t s.queue.tail
      | _ => s.seen }

end State

inductive Step (size : Nat) (s : State α) (t : Nat) : Hazard.Event → State α → Prop where
  | call (c : Call α) (pc : s.pc t = .idle) (outside : (s.domain.thread t).pc = .idle) :
      Step size s t .other (s.setQueue t (c.start size t s.queue))
  -- `local_record` and `protect`
  | bind (busy : s.pc t ≠ .idle) (outside : (s.domain.thread t).pc = .idle)
      (unbound : (s.domain.thread t).tls = none) :
      Step size s t .other
        { s with domain := s.domain.goto t (.acquireWalk s.domain.head) }
  | protect (a r : Nat) (pc : source (s.pc t) = some a)
      (outside : (s.domain.thread t).pc = .idle) (bound : (s.domain.thread t).tls = some r)
      (retired : s.retiring t = none) :
      Step size s t .other { s with domain := s.domain.goto t (.protectLoad a) }
  | inside (e : Hazard.Event) (d : Hazard.State) (busy : s.pc t ≠ .idle)
      (midway : (s.domain.thread t).pc ≠ .idle)
      (unfinished : ∀ result, (s.domain.thread t).pc ≠ .done result)
      (own : ∀ a v, e ≠ .store a v) (hstep : Hazard.Step s.domain t e d) :
      Step size s t e (s.inside t e d)
  | obtained (a p : Nat) (pc : source (s.pc t) = some a)
      (finished : (s.domain.thread t).pc = .done (some p)) :
      Step size s t .other
        ({ s with domain := s.domain.goto t .idle }.setQueue t
          (obtained s.queue (s.seen t) (s.pc t)))
  -- the rest of the queue
  | run (spurious : Bool) (k : Nat) (pc : uses (s.pc t) = some k) (plain : moves (s.pc t) = false) :
      Step size s t .other (s.setQueue t (exec size t spurious s.queue (s.pc t)))
  | follow (carry : Bool) (op k : Nat) (vs : List α) (pc : s.pc t = .loadNext carry op k vs)
      (linked : k < s.queue.last) :
      Step size s t .other (s.setQueue t (exec size t false s.queue (.loadNext carry op k vs)))
  | take (carry : Bool) (op k : Nat) (vs : List α) (a : Nat)
      (pc : s.pc t = .loadNext carry op k vs) (unlinked : s.queue.last ≤ k)
      (free : ¬ s.Owned a) (deleted : s.domain.gone a = false) :
      Step size s t .other
        ({ s with fresh := Function.update s.fresh t (some a) }.setQueue t
          (exec size t false s.queue (.loadNext carry op k vs)))
  | link (carry : Bool) (op k : Nat) (seg : Segment α) (vs : List α) (a : Nat)
      (pc : s.pc t = .link carry op k seg vs) (taken : s.fresh t = some a)
      (unlinked : k = s.queue.last) :
      Step size s t .other
        ({ s with
            addr := Function.update s.addr (k + 1) a,
            birth := Function.update s.birth (k + 1) (s.domain.gen a),
            fresh := Function.update s.fresh t none }.setQueue t
          (exec size t false s.queue (.link carry op k seg vs)))
  | linkLost (carry : Bool) (op k : Nat) (seg : Segment α) (vs : List α)
      (pc : s.pc t = .link carry op k seg vs) (linked : k ≠ s.queue.last) :
      Step size s t .other
        ({ s with fresh := Function.update s.fresh t none }.setQueue t
          (exec size t false s.queue (.link carry op k seg vs)))
  | swingHead (max : Option Nat) (k : Nat) (pc : s.pc t = .swingHead max k)
      (first : s.queue.head = k) :
      Step size s t .other
        ({ s with retiring := Function.update s.retiring t (some k) }.setQueue t
          (exec size t false s.queue (.swingHead max k)))
  | swingHeadLost (max : Option Nat) (k : Nat) (pc : s.pc t = .swingHead max k)
      (later : s.queue.head ≠ k) :
      Step size s t .other (s.setQueue t (exec size t false s.queue (.swingHead max k)))
  | retire (k r : Nat) (pc : source (s.pc t) = some 0) (waiting : s.retiring t = some k)
      (outside : (s.domain.thread t).pc = .idle) (bound : (s.domain.thread t).tls = some r) :
      Step size s t (.retire (s.addr k))
        { s with
          domain := (s.domain.retire r (s.addr k)).goto t .retireCount,
          retiring := Function.update s.retiring t none }
  -- other users of the domain
  | client (e : Hazard.Event) (d : Hazard.State) (pc : s.pc t = .idle) (foreign : s.Foreign e)
      (hstep : Hazard.Step s.domain t e d) : Step size s t e { s with domain := d }

abbrev Runs (size : Nat) (ok : State α → Nat → Hazard.Event → Prop) : State α → Prop :=
  ThreadRuns (· = .new) (Step size) ok

structure Safe (s : State α) : Prop where
  used : ∀ t k, uses (s.pc t) = some k → s.segment k ∉ s.domain.deleted
  retiring : ∀ t k, s.retiring t = some k → s.segment k ∉ s.domain.deleted

/-- When `protect` loads a pointer other than `head_`, every scan under way that has the object
on its list has found it, or has yet to read each slot of the thread that holds it. -/
def Guarded (s : State α) (t : Nat) (e : Hazard.Event) : Prop :=
  ∀ a, e = .load (a + 1) → Hazard.Sound s.domain t e

end Uvent.Queue.Recycling
