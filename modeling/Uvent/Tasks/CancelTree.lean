import Uvent.Lib.SiblingList
import Uvent.Net.StateWord
import Uvent.Sync.WaitList

/-!
# The tree of cancel states

`CancelState`s and the `TaskState`s among them, with what refers to them: the handles of
their users (`JoinHandle`, `TaskScope`, `CancellationSource`, `CancellationToken`), the
running task, the children, the kick queues and the drain registry.  Any number of threads
make nodes, cancel them, release them, complete tasks and process kicks, and any number of
coroutines wait in `on_cancel()`.

Every access to a word that another thread reads or writes is one step, and so is a section
under the lock of a wait list and the section of `link` and of `unlink_from_parent`.  The
walk of `request_cancel` holds `tree_lock` over many steps.  A `kick` that gets past its
checks knows a worker; which one that is, and whether a coroutine has a cancel hook, is left
open, and so is what a coroutine's own task makes of its waits.
-/

namespace Uvent.Tasks.CancelTree

open Uvent.Lib Uvent.Sync
open Uvent.Net.StateWord (Build)

/-- The accesses of `request_cancel` to one node, with those of its `kick`.  `walk` holds the
lock, and is at a child. -/
inductive Point where
  | exchange
  | wakeCheck
  | wakeAll
  | kickLoad
  | kickFlag (w : Nat)
  | kickTake (w : Nat)
  | kickPush (w : Nat)
  | kickReset
  | lock
  | walk (c : Option Nat)
  deriving DecidableEq, Repr

structure Frame where
  node : Nat
  point : Point
  deriving DecidableEq, Repr

/-- The constructor of a handle, or `spawn_under`, behind `new`. -/
inductive Making where
  | retain (p : Nat)
  | link (p : Nat)
  | run
  | register
  | spawn
  | give
  deriving DecidableEq, Repr

inductive Kicked where
  | clear
  | hook
  deriving DecidableEq, Repr

/-- `release`; the first access knows whether it is the one of `process_kick`. -/
inductive Release where
  | drop (kick : Bool)
  | unlink
  | free
  deriving DecidableEq, Repr

/-- What a thread does; the stack of `request_cancel` has its innermost call first. -/
inductive Thread where
  | idle
  | cancelling (stack : List Frame)
  | making (c : Nat) (pc : Making)
  | kicked (n : Nat) (pc : Kicked)
  | releasing (n : Nat) (pc : Release)
  deriving DecidableEq, Repr

/-- Where an awaiter of `on_cancel()` is: `begin` to `withdraw` are those of
`OpWait::await_suspend`. -/
inductive AwaitPc where
  | unused
  | ready
  | begin
  | push
  | check
  | undo
  | arm
  | withdraw
  | parked
  | ended
  deriving DecidableEq, Repr

/-- An awaiter of `on_cancel()`.  `fired` is set when its coroutine goes into a run queue, and
`resumed` when it is taken from there. -/
structure Awaiter where
  node : Nat
  pc : AwaitPc
  fired : Bool
  resumed : Bool
  deriving DecidableEq, Repr

/-- `treeLock` knows who holds the lock.  The last five fields are not of the program: the
nodes that `request_cancel` was called on, those that were linked and are not unlinked, and
how often a node was deleted, put into a kick queue, and released for a kick. -/
structure State where
  next : Nat
  refs : Nat → Nat
  requested : Nat → Bool
  treeLock : Nat → Option Nat
  parent : Nat → Option Nat
  firstChild : Nat → Option Nat
  prevSib : Nat → Option Nat
  nextSib : Nat → Option Nat
  cancelWaiters : Nat → WaitList Nat
  isTask : Nat → Bool
  status : Nat → Bool
  kickPending : Nat → Bool
  kicks : Nat → List Nat
  handle : Nat → Option Nat
  running : Nat → Bool
  registered : Nat → Bool
  awaiter : Nat → Awaiter
  threads : Nat → Thread
  called : Nat → Bool
  linked : Nat → Bool
  deleted : Nat → Nat
  enqueued : Nat → Nat
  unkicked : Nat → Nat

namespace State

def new : State where
  next := 0
  refs := fun _ => 0
  requested := fun _ => false
  treeLock := fun _ => none
  parent := fun _ => none
  firstChild := fun _ => none
  prevSib := fun _ => none
  nextSib := fun _ => none
  cancelWaiters := fun _ => []
  isTask := fun _ => false
  status := fun _ => false
  kickPending := fun _ => false
  kicks := fun _ => []
  handle := fun _ => none
  running := fun _ => false
  registered := fun _ => false
  awaiter := fun _ => ⟨0, .unused, false, false⟩
  threads := fun _ => .idle
  called := fun _ => false
  linked := fun _ => false
  deleted := fun _ => 0
  enqueued := fun _ => 0
  unkicked := fun _ => 0

def goto (s : State) (t : Nat) (th : Thread) : State :=
  { s with threads := Function.update s.threads t th }

def setAwaiter (s : State) (j : Nat) (a : Awaiter) : State :=
  { s with awaiter := Function.update s.awaiter j a }

def setWaiters (s : State) (n : Nat) (l : WaitList Nat) : State :=
  { s with cancelWaiters := Function.update s.cancelWaiters n l }

def Held (s : State) (n : Nat) : Prop :=
  (∃ i, s.handle i = some n) ∨ s.running n = true ∨ s.registered n = true

/-! ### Nodes -/

def alloc (s : State) (task : Bool) : State :=
  { s with
    next := s.next + 1,
    refs := Function.update s.refs s.next 1,
    isTask := Function.update s.isTask s.next task }

def addRef (s : State) (n : Nat) : State :=
  { s with refs := Function.update s.refs n (s.refs n + 1) }

def behindLink (s : State) (c : Nat) : Making := if s.isTask c then .run else .give

/-- The section of `link` under the lock of the parent. -/
def link (s : State) (p c : Nat) : State :=
  { s with
    nextSib := Function.update s.nextSib c (s.firstChild p),
    prevSib := setAt (Function.update s.prevSib c none) (s.firstChild p) (some c),
    firstChild := Function.update s.firstChild p (some c),
    requested := if s.requested p then Function.update s.requested c true else s.requested,
    linked := Function.update s.linked c true }

/-- The section of `unlink_from_parent` under the lock of the parent. -/
def unlinkFromParent (s : State) (p c : Nat) : State :=
  { s with
    firstChild :=
      if (s.prevSib c).isSome then s.firstChild
      else Function.update s.firstChild p (s.nextSib c),
    nextSib := Function.update (setAt s.nextSib (s.prevSib c) (s.nextSib c)) c none,
    prevSib := Function.update (setAt s.prevSib (s.nextSib c) (s.prevSib c)) c none,
    linked := Function.update s.linked c false }

def behindFree (s : State) (n : Nat) : Thread :=
  match s.parent n with
  | some p => .releasing p (.drop false)
  | none => .idle

/-! ### Cancellation -/

def wakeAll (s : State) (n : Nat) : State :=
  { s.setWaiters n [] with
    awaiter := fun j =>
      if j ∈ s.cancelWaiters n then { s.awaiter j with fired := true } else s.awaiter j }

/-- `request_cancel` returns, to the walk it was called from if there is one. -/
def ret (s : State) (t : Nat) : List Frame → State
  | ⟨p, .walk (some c)⟩ :: below => s.goto t (.cancelling (⟨p, .walk (s.nextSib c)⟩ :: below))
  | _ => s.goto t .idle

def runCancelHook (s : State) (j : Nat) : State :=
  if ((s.cancelWaiters (s.awaiter j).node).removeLocked j).1 then
    (s.setWaiters (s.awaiter j).node ((s.cancelWaiters (s.awaiter j).node).removeLocked j).2).setAwaiter
      j { s.awaiter j with fired := true }
  else s

/-- `detach`; the awaiter goes on to `pc` if it was fired before. -/
def detach (s : State) (j : Nat) : State :=
  (s.setWaiters (s.awaiter j).node ((s.cancelWaiters (s.awaiter j).node).removeLocked j).2).setAwaiter
    j { s.awaiter j with
        pc := if ((s.cancelWaiters (s.awaiter j).node).removeLocked j).1 then .ended else .parked }

/-- The next access of an awaiter; `cancelled` is what it reads of its own task. -/
def suspend (s : State) (j : Nat) (cancelled : Bool) : State :=
  match (s.awaiter j).pc with
  | .unused | .parked | .ended => s
  | .ready =>
      s.setAwaiter j
        { s.awaiter j with pc := if s.requested (s.awaiter j).node then .ended else .begin }
  | .begin => s.setAwaiter j { s.awaiter j with pc := if cancelled then .ended else .push }
  | .push =>
      (s.setWaiters (s.awaiter j).node
        ((s.cancelWaiters (s.awaiter j).node).pushLocked j)).setAwaiter j
          { s.awaiter j with pc := .check }
  | .check =>
      s.setAwaiter j
        { s.awaiter j with pc := if s.requested (s.awaiter j).node then .undo else .arm }
  | .arm => s.setAwaiter j { s.awaiter j with pc := if cancelled then .withdraw else .parked }
  | .undo | .withdraw => s.detach j

end State

def AwaitPc.listed : AwaitPc → Bool
  | .check | .undo | .arm | .withdraw | .parked => true
  | _ => false

inductive Step (build : Build) (s : State) : State → Prop where
  | make (t : Nat) (p : Option Nat) (task : Bool) (pc : s.threads t = .idle)
      (known : ∀ q, p = some q → s.Held q) :
      Step build s ((s.alloc task).goto t (.making s.next (match p with
        | some q => .retain q
        | none => if task then .run else .give)))
  | retain (t c p : Nat) (pc : s.threads t = .making c (.retain p)) (held : s.Held p) :
      Step build s
        ({ s.addRef p with parent := Function.update s.parent c (some p) }.goto t
          (.making c (.link p)))
  | link (t c p : Nat) (pc : s.threads t = .making c (.link p)) (free : s.treeLock p = none) :
      Step build s ((s.link p c).goto t (.making c (s.behindLink c)))
  | run (t c : Nat) (pc : s.threads t = .making c .run) :
      Step build s
        ({ s.addRef c with running := Function.update s.running c true }.goto t
          (.making c .register))
  | register (t c : Nat) (pc : s.threads t = .making c .register) :
      Step build s
        ({ s.addRef c with registered := Function.update s.registered c true }.goto t
          (.making c .spawn))
  | unregistered (t c : Nat) (pc : s.threads t = .making c .register) :
      Step build s (s.goto t (.making c .spawn))
  | spawn (t c : Nat) (pc : s.threads t = .making c .spawn) :
      Step build s (s.goto t (.making c .give))
  | give (t c i : Nat) (pc : s.threads t = .making c .give) (unused : s.handle i = none) :
      Step build s ({ s with handle := Function.update s.handle i (some c) }.goto t .idle)
  | copy (i n : Nat) (unused : s.handle i = none) (held : s.Held n) :
      Step build s { s.addRef n with handle := Function.update s.handle i (some n) }
  | detach (t i n : Nat) (pc : s.threads t = .idle) (points : s.handle i = some n) :
      Step build s
        ({ s with handle := Function.update s.handle i none }.goto t (.releasing n (.drop false)))
  | complete (t n : Nat) (pc : s.threads t = .idle) (running : s.running n = true)
      (spawned : ∀ t pc, s.threads t = .making n pc → pc = .give) :
      Step build s
        ({ s with
            status := Function.update s.status n true,
            running := Function.update s.running n false }.goto t (.releasing n (.drop false)))
  | sweep (t n : Nat) (pc : s.threads t = .idle) (entry : s.registered n = true)
      (done : s.status n = true) :
      Step build s
        ({ s with registered := Function.update s.registered n false }.goto t
          (.releasing n (.drop false)))
  | unregister (t n : Nat) (pc : s.threads t = .idle) (entry : s.registered n = true) :
      Step build s
        ({ s with registered := Function.update s.registered n false }.goto t
          (.releasing n (.drop false)))
  | drop (t n : Nat) (kick : Bool) (pc : s.threads t = .releasing n (.drop kick)) :
      Step build s
        ({ s with
            refs := Function.update s.refs n (s.refs n - 1),
            unkicked := Function.update s.unkicked n (s.unkicked n + kick.toNat) }.goto t
          (if s.refs n = 1 then .releasing n .unlink else .idle))
  | unlinkRoot (t n : Nat) (pc : s.threads t = .releasing n .unlink) (root : s.parent n = none) :
      Step build s (s.goto t (.releasing n .free))
  | unlink (t n p : Nat) (pc : s.threads t = .releasing n .unlink) (up : s.parent n = some p)
      (free : s.treeLock p = none) :
      Step build s ((s.unlinkFromParent p n).goto t (.releasing n .free))
  | free (t n : Nat) (pc : s.threads t = .releasing n .free) :
      Step build s
        ({ s with deleted := Function.update s.deleted n (s.deleted n + 1) }.goto t
          (s.behindFree n))
  | request (t n : Nat) (pc : s.threads t = .idle) (held : s.Held n) :
      Step build s
        ({ s with called := Function.update s.called n true }.goto t
          (.cancelling [⟨n, .exchange⟩]))
  | exchange (t n : Nat) (below : List Frame)
      (pc : s.threads t = .cancelling (⟨n, .exchange⟩ :: below)) :
      Step build s
        (if s.requested n then s.ret t below
          else { s with requested := Function.update s.requested n true }.goto t
            (.cancelling (⟨n, .wakeCheck⟩ :: below)))
  | wakeCheck (t n : Nat) (below : List Frame)
      (pc : s.threads t = .cancelling (⟨n, .wakeCheck⟩ :: below)) :
      Step build s
        (s.goto t (.cancelling
          (⟨n, if (s.cancelWaiters n).emptyRelaxed then .kickLoad else .wakeAll⟩ :: below)))
  | wakeAll (t n : Nat) (below : List Frame)
      (pc : s.threads t = .cancelling (⟨n, .wakeAll⟩ :: below)) :
      Step build s ((s.wakeAll n).goto t (.cancelling (⟨n, .kickLoad⟩ :: below)))
  | kickSkip (t n : Nat) (below : List Frame)
      (pc : s.threads t = .cancelling (⟨n, .kickLoad⟩ :: below)) :
      Step build s (s.goto t (.cancelling (⟨n, .lock⟩ :: below)))
  | kickLoad (t n w : Nat) (below : List Frame)
      (pc : s.threads t = .cancelling (⟨n, .kickLoad⟩ :: below)) (task : s.isTask n = true)
      (reuseaddr : build = .reuseaddr) :
      Step build s (s.goto t (.cancelling (⟨n, .kickFlag w⟩ :: below)))
  | kickFlag (t n w : Nat) (below : List Frame)
      (pc : s.threads t = .cancelling (⟨n, .kickFlag w⟩ :: below)) :
      Step build s
        ({ s with kickPending := Function.update s.kickPending n true }.goto t
          (.cancelling (⟨n, if s.kickPending n then .lock else .kickTake w⟩ :: below)))
  | kickTake (t n w : Nat) (below : List Frame)
      (pc : s.threads t = .cancelling (⟨n, .kickTake w⟩ :: below)) (alive : s.refs n ≠ 0) :
      Step build s ((s.addRef n).goto t (.cancelling (⟨n, .kickPush w⟩ :: below)))
  | kickMiss (t n w : Nat) (below : List Frame)
      (pc : s.threads t = .cancelling (⟨n, .kickTake w⟩ :: below)) (dead : s.refs n = 0) :
      Step build s (s.goto t (.cancelling (⟨n, .kickReset⟩ :: below)))
  | kickReset (t n : Nat) (below : List Frame)
      (pc : s.threads t = .cancelling (⟨n, .kickReset⟩ :: below)) :
      Step build s
        ({ s with kickPending := Function.update s.kickPending n false }.goto t
          (.cancelling (⟨n, .lock⟩ :: below)))
  | kickPush (t n w : Nat) (below : List Frame)
      (pc : s.threads t = .cancelling (⟨n, .kickPush w⟩ :: below)) :
      Step build s
        ({ s with
            kicks := Function.update s.kicks w (s.kicks w ++ [n]),
            enqueued := Function.update s.enqueued n (s.enqueued n + 1) }.goto t
          (.cancelling (⟨n, .lock⟩ :: below)))
  | lock (t n : Nat) (below : List Frame)
      (pc : s.threads t = .cancelling (⟨n, .lock⟩ :: below)) (free : s.treeLock n = none) :
      Step build s
        ({ s with treeLock := Function.update s.treeLock n (some t) }.goto t
          (.cancelling (⟨n, .walk (s.firstChild n)⟩ :: below)))
  | visit (t n c : Nat) (below : List Frame)
      (pc : s.threads t = .cancelling (⟨n, .walk (some c)⟩ :: below)) :
      Step build s
        (s.goto t (.cancelling (⟨c, .exchange⟩ :: ⟨n, .walk (some c)⟩ :: below)))
  | unlock (t n : Nat) (below : List Frame)
      (pc : s.threads t = .cancelling (⟨n, .walk none⟩ :: below)) :
      Step build s
        ({ s with treeLock := Function.update s.treeLock n none }.ret t below)
  | popKick (t w n : Nat) (rest : List Nat) (pc : s.threads t = .idle)
      (queue : s.kicks w = n :: rest) :
      Step build s
        ({ s with kicks := Function.update s.kicks w rest }.goto t (.kicked n .clear))
  | clear (t n : Nat) (pc : s.threads t = .kicked n .clear) :
      Step build s
        ({ s with kickPending := Function.update s.kickPending n false }.goto t (.kicked n .hook))
  | hook (t n j : Nat) (pc : s.threads t = .kicked n .hook) (undone : s.status n = false)
      (suspended : (s.awaiter j).pc = .parked) :
      Step build s ((s.runCancelHook j).goto t (.releasing n (.drop true)))
  | hookless (t n : Nat) (pc : s.threads t = .kicked n .hook) :
      Step build s (s.goto t (.releasing n (.drop true)))
  | onCancel (j n : Nat) (unused : (s.awaiter j).pc = .unused) (held : s.Held n) :
      Step build s (s.setAwaiter j ⟨n, .ready, false, false⟩)
  | suspend (j : Nat) (cancelled : Bool) : Step build s (s.suspend j cancelled)
  | resume (j : Nat) (fired : (s.awaiter j).fired = true) (once : (s.awaiter j).resumed = false)
      (suspended : (s.awaiter j).pc = .parked ∨ build = .shared) :
      Step build s (s.setAwaiter j { s.awaiter j with resumed := true })

inductive Runs (build : Build) : State → Prop where
  | start : Runs build .new
  | step {s s' : State} (hs : Runs build s) (hstep : Step build s s') : Runs build s'

def Quiet (s : State) : Prop := ∀ t, s.threads t = .idle

end Uvent.Tasks.CancelTree
