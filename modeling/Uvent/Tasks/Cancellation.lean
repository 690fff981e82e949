import Uvent.Lib.Interleave

/-!
# Cancellation of a task

One task of a `UVENT_ENABLE_REUSEADDR` build: its state (`TaskStateBase`), the
frames of its coroutines, the worker that owns it, and any number of threads that
call `request_cancel`.  Every access to a word that another thread reads or
writes is one step; what the owner does to the frames alone is part of its next
step.

The frames are numbered in the order in which they are made, the root is `0`.
What a coroutine does next is free: it awaits a child, ends, yields a value,
starts an I/O operation and awaits it now or later, or waits for something.  A
frame is in the run queue or the inbox of the worker when its mode is `queued`.
-/

namespace Uvent.Tasks

open Uvent.Lib

/-- `parked` is a cancellable wait, `blocked` one that is not; a frame is
`calling` while an I/O operation it started runs inside the call. -/
inductive Mode where
  | fresh
  | queued
  | running
  | calling
  | awaiting
  | parked
  | blocked
  | yielded
  | finished
  deriving DecidableEq, Repr

/-- The accesses of `kick`. -/
inductive KickPc where
  | load
  | flag
  | push
  deriving DecidableEq, Repr

/-- Where the running frame is: in its own code, or in `await_suspend` of a wait.
`check` to `detach` are those of `OpWait`, which every wait but that of a socket
follows; `sockArm` and `sockPark` are those of `suspend_on`. -/
inductive Point where
  | code
  | check
  | attach
  | arm
  | detach
  | sockArm
  | sockPark
  deriving DecidableEq, Repr

/-- What the owner is doing for the task.  A task that was spawned without a
worker is in the shared queue first; `below` are the frames that started an I/O
operation and whose call has not returned. -/
inductive Worker where
  | shared
  | stamp
  | probe
  | shake (pc : KickPc)
  | loop
  | clear
  | hook
  | running (f : Nat) (point : Point) (below : List Nat)
  deriving DecidableEq, Repr

structure Task where
  requested : Bool
  ownerTid : Option Nat
  kickPending : Bool
  kicks : Nat
  done : Bool
  worker : Worker
  created : Nat
  mode : Nat → Mode
  next : Nat → Option Nat
  prev : Nat → Option Nat
  hook : Nat → Bool
  attached : Nat → Bool

/-- A task that was spawned, on a worker of the caller's choice or not; it is born
cancelled under a cancelled parent. -/
def Task.new (tid : Option Nat) (requested : Bool) : Task where
  requested := requested
  ownerTid := tid
  kickPending := false
  kicks := 0
  done := false
  worker := if tid.isSome then .loop else .shared
  created := 1
  mode := fun f => if f = 0 ∧ tid.isSome = true then .queued else .fresh
  next := fun _ => none
  prev := fun _ => none
  hook := fun _ => false
  attached := fun _ => false

namespace Task

def setMode (s : Task) (f : Nat) (mode : Mode) : Task :=
  { s with mode := Function.update s.mode f mode }

def setNext (s : Task) (f : Nat) (g : Option Nat) : Task :=
  { s with next := Function.update s.next f g }

def setPrev (s : Task) (f : Nat) (g : Option Nat) : Task :=
  { s with prev := Function.update s.prev f g }

def setHook (s : Task) (f : Nat) (armed : Bool) : Task :=
  { s with hook := Function.update s.hook f armed }

def setAttached (s : Task) (f : Nat) (attached : Bool) : Task :=
  { s with attached := Function.update s.attached f attached }

/-- The accesses of `kick`; `alive` is what `try_add_ref` says. -/
def kick (s : Task) (alive : Bool) : KickPc → Task × Option KickPc
  | .load => (s, if s.ownerTid.isNone then none else some .flag)
  | .flag => ({ s with kickPending := true }, if s.kickPending then none else some .push)
  | .push =>
      if alive then ({ s with kicks := s.kicks + 1 }, none)
      else ({ s with kickPending := false }, none)

/-- The running frame has suspended: back to the call that started it, or to the
loop. -/
def leave (s : Task) : List Nat → Task
  | [] => { s with worker := .loop }
  | f :: below => { s.setMode f .running with worker := .running f .code below }

def handOver (s : Task) (deep : Bool) (g : Nat) (below : List Nat) : Task :=
  if deep then (s.setMode g .queued).leave below
  else { s.setMode g .running with worker := .running g .code below }

/-- `await_suspend` of a wait lets frame `f` go: it is parked, or has been fired
and sits in a queue. -/
def suspend (s : Task) (f : Nat) (below : List Nat) : Task :=
  (s.setMode f (if s.attached f then .parked else .queued)).leave below

def call (s : Task) (f : Nat) (deep : Bool) (below : List Nat) : Task :=
  ({ ((s.setNext f (some s.created)).setPrev s.created (some f)).setMode f .awaiting with
      created := s.created + 1 }).handOver deep s.created below

def finish (s : Task) (f : Nat) (deep : Bool) (below : List Nat) : Task :=
  match s.prev f with
  | some p => (((s.setPrev f none).setNext p none).setMode f .finished).handOver deep p below
  | none => { s.setMode f .finished with done := s.done || decide (f = 0) }.leave below

/-- `yield_transfer` to the coroutine `p` that awaits `f`. -/
def coYield (s : Task) (f p : Nat) (deep : Bool) (below : List Nat) : Task :=
  (s.setMode f .yielded).handOver deep p below

/-- `co_await` of a generator that has yielded. -/
def again (s : Task) (f g : Nat) (deep : Bool) (below : List Nat) : Task :=
  (((s.setNext f (some g)).setPrev g (some f)).setMode f .awaiting).handOver deep g below

def startDeferred (s : Task) (f : Nat) (below : List Nat) : Task :=
  { (s.setMode f .calling).setMode s.created .running with
    created := s.created + 1, worker := .running s.created .code (f :: below) }

/-- `co_await` of an I/O operation that was started and has not ended. -/
def awaitDeferred (s : Task) (f g : Nat) (below : List Nat) : Task :=
  (((s.setNext f (some g)).setPrev g (some f)).setMode f .awaiting).leave below

/-- The frame at which the walk of `process_kick` along `next_` ends; there are
`fuel` frames at most. -/
def leafFrom (s : Task) : Nat → Nat → Nat
  | 0, f => f
  | fuel + 1, f =>
      match s.next f with
      | none => f
      | some g => s.leafFrom fuel g

/-- `run_cancel_hook`: the hook takes the waiter out of its list and puts the
frame into the run queue, unless the waiter was fired before. -/
def runCancelHook (s : Task) (f : Nat) : Task :=
  if s.hook f && s.attached f then ((s.setHook f false).setAttached f false).setMode f .queued
  else s.setHook f false

/-- The end of `process_kick`. -/
def processKick (s : Task) : Task :=
  { if s.done then s else s.runCancelHook (s.leafFrom s.created 0) with worker := .loop }

end Task

inductive Requester where
  | idle
  | kick (pc : KickPc)
  deriving DecidableEq, Repr

def Requester.ofKick : Option KickPc → Requester
  | none => .idle
  | some pc => .kick pc

inductive WorkerStep (s : Task) : Task → Prop where
  | dequeue (h : s.worker = .shared) : WorkerStep s { s with worker := .stamp }
  | stamp (tid : Nat) (h : s.worker = .stamp) :
      WorkerStep s { s with ownerTid := some tid, worker := .probe }
  | probe (h : s.worker = .probe) :
      WorkerStep s (if s.requested then { s with worker := .shake .load }
        else { s.setMode 0 .queued with worker := .loop })
  | shake (pc : KickPc) (alive : Bool) (h : s.worker = .shake pc) (hdone : alive = false → s.done) :
      WorkerStep s (match s.kick alive pc with
        | (s', some pc') => { s' with worker := .shake pc' }
        | (s', none) => { s'.setMode 0 .queued with worker := .loop })
  | pop (h : s.worker = .loop) (hk : 0 < s.kicks) :
      WorkerStep s { s with kicks := s.kicks - 1, worker := .clear }
  | clear (h : s.worker = .clear) :
      WorkerStep s { s with kickPending := false, worker := .hook }
  | hook (h : s.worker = .hook) : WorkerStep s s.processKick
  | resume (f : Nat) (h : s.worker = .loop) (hf : s.mode f = .queued) :
      WorkerStep s { (s.setHook f false).setMode f .running with worker := .running f .code [] }
  | call (f : Nat) (below : List Nat) (deep : Bool) (h : s.worker = .running f .code below) :
      WorkerStep s (s.call f deep below)
  | finish (f : Nat) (below : List Nat) (deep : Bool) (h : s.worker = .running f .code below) :
      WorkerStep s (s.finish f deep below)
  | coYield (f p : Nat) (below : List Nat) (deep : Bool) (h : s.worker = .running f .code below)
      (hp : s.prev f = some p) : WorkerStep s (s.coYield f p deep below)
  | again (f g : Nat) (below : List Nat) (deep : Bool) (h : s.worker = .running f .code below)
      (hg : s.mode g = .yielded) : WorkerStep s (s.again f g deep below)
  | startDeferred (f : Nat) (below : List Nat) (h : s.worker = .running f .code below) :
      WorkerStep s (s.startDeferred f below)
  | awaitDeferred (f g : Nat) (below : List Nat) (h : s.worker = .running f .code below)
      (hg : s.mode g ∈ [.queued, .parked, .blocked, .awaiting]) (hroot : g ≠ 0)
      (hprev : s.prev g = none) : WorkerStep s (s.awaitDeferred f g below)
  | yield (f : Nat) (below : List Nat) (h : s.worker = .running f .code below) :
      WorkerStep s ((s.setMode f .queued).leave below)
  | block (f : Nat) (below : List Nat) (h : s.worker = .running f .code below) :
      WorkerStep s ((s.setMode f .blocked).leave below)
  | wait (f : Nat) (below : List Nat) (point : Point) (h : s.worker = .running f .code below)
      (hpoint : point = .check ∨ point = .sockArm) :
      WorkerStep s { s with worker := .running f point below }
  | check (f : Nat) (below : List Nat) (h : s.worker = .running f .check below) :
      WorkerStep s { s with worker := .running f (if s.requested then .code else .attach) below }
  | attach (f : Nat) (below : List Nat) (h : s.worker = .running f .attach below) :
      WorkerStep s { s.setAttached f true with worker := .running f .arm below }
  | ready (f : Nat) (below : List Nat) (h : s.worker = .running f .arm below) :
      WorkerStep s (if s.attached f then
          { s.setAttached f false with worker := .running f .code below }
        else s.suspend f below)
  | arm (f : Nat) (below : List Nat) (h : s.worker = .running f .arm below) :
      WorkerStep s (if s.requested then
          { s.setHook f true with worker := .running f .detach below }
        else (s.setHook f true).suspend f below)
  | detach (f : Nat) (below : List Nat) (h : s.worker = .running f .detach below) :
      WorkerStep s (if s.attached f then
          { (s.setAttached f false).setHook f false with worker := .running f .code below }
        else s.suspend f below)
  | sockArm (f : Nat) (below : List Nat) (h : s.worker = .running f .sockArm below) :
      WorkerStep s (if s.requested then ((s.setHook f false).setMode f .queued).leave below
        else { s.setHook f true with worker := .running f .sockPark below })
  | sockPark (f : Nat) (below : List Nat) (parked : Bool)
      (h : s.worker = .running f .sockPark below) :
      WorkerStep s ((s.setAttached f parked).suspend f below)

abbrev System := World Nat Task Requester

/-- One step: of the owner, of a waker, or of a thread in `request_cancel`. -/
inductive Step (w : System) : System → Prop where
  | worker {s : Task} (h : WorkerStep w.shared s) : Step w { w with shared := s }
  | fire (f : Nat) (h : w.shared.attached f = true) :
      Step w { w with shared :=
        if w.shared.mode f = .parked then (w.shared.setAttached f false).setMode f .queued
        else w.shared.setAttached f false }
  | wake (f : Nat) (h : w.shared.mode f = .blocked) :
      Step w { w with shared := w.shared.setMode f .queued }
  | request (t : Nat) (h : w.own t = .idle) :
      Step w ⟨{ w.shared with requested := true },
        Function.update w.own t (if w.shared.requested then .idle else .kick .load)⟩
  | kick (t : Nat) (pc : KickPc) (alive : Bool) (h : w.own t = .kick pc)
      (hdone : alive = false → w.shared.done) :
      Step w ⟨(w.shared.kick alive pc).1,
        Function.update w.own t (.ofKick (w.shared.kick alive pc).2)⟩

inductive Runs (ok : System → Prop) : System → Prop where
  | start (tid : Option Nat) (requested : Bool) : Runs ok ⟨.new tid requested, fun _ => .idle⟩
  | step {w w' : System} (hw : Runs ok w) (meets : ok w) (hstep : Step w w') : Runs ok w'

structure Quiet (w : System) : Prop where
  threads : ∀ t, w.own t = .idle
  worker : w.shared.worker = .loop
  kicks : w.shared.kicks = 0
  queued : ∀ f, w.shared.mode f ≠ .queued

/-- A task that was cancelled and has not ended is not left in a cancellable
wait. -/
def Delivered (w : System) : Prop :=
  Quiet w → w.shared.requested = true → w.shared.done = false → ∀ f, w.shared.mode f ≠ .parked

end Uvent.Tasks
