import Uvent.Lib.Forest
import Uvent.Lib.LabelledRuns
import Uvent.Lib.Tally
import Uvent.Net.StateWord
import Uvent.Sync.WaitList

/-!
# Scopes, tasks and joins

The forest of `CancelState`s with its `live_tasks` counters, and the coroutines that await a
`TaskScope::join()` or a `JoinHandle`.  A spawn and a completion are known here by the task
they are for, and every access to a word or a locked section is one step of theirs.  A node
stays where it is: nothing below looks at `refs`.

A woken coroutine is in a run queue.  With `UVENT_ENABLE_REUSEADDR` it is in that of the
worker that suspends it, which takes it up when `await_suspend` is over.  In the shared
build any worker may take it up before, and what is left of its `await_suspend` then goes on
beside it.  A coroutine has one awaiter here, as the awaits of a loop have.
-/

namespace Uvent.Tasks.Joins

open Uvent.Lib Uvent.Sync
open Uvent.Net.StateWord (Build)

inductive Phase where
  | absent
  | scope
  | retaining (cur : Option Nat)
  | running
  | stored
  | done
  | wakingDone
  | dropping (cur : Option Nat)
  | draining (m : Nat)
  | waking (m : Nat)
  | completed
  deriving DecidableEq, Repr

inductive Await where
  | scope (m : Nat)
  | handle (n : Nat)
  deriving DecidableEq, Repr

/-- Where a coroutine is: `away` from any join, in `await_ready`, in `await_suspend`, or
suspended. -/
inductive Pc where
  | away
  | ready (a : Await)
  | push (a : Await)
  | check (a : Await)
  | remove (a : Await)
  | parked (a : Await)
  deriving DecidableEq, Repr

/-- What is left of an `await_suspend` whose coroutine was resumed. -/
inductive Rest where
  | check (a : Await)
  | remove (a : Await)
  deriving DecidableEq, Repr

def Pc.await : Pc → Option Await
  | .away => none
  | .ready a | .push a | .check a | .remove a | .parked a => some a

def Pc.node : Pc → Option Await
  | .check a | .remove a | .parked a => some a
  | _ => none

/-- `queued` counts the entries in run queues, and `zeroed` remembers whether the count of
the scope that is joined was 0 since the call. -/
structure Coroutine where
  pc : Pc
  queued : Nat
  zeroed : Bool
  rests : List Rest
  deriving DecidableEq, Repr

structure State where
  next : Nat
  parent : Nat → Option Nat
  phase : Nat → Phase
  live : Nat → Nat
  stored : Nat → Bool
  status : Nat → Bool
  waiters : Await → WaitList Nat
  co : Nat → Coroutine

namespace State

def new : State where
  next := 0
  parent := fun _ => none
  phase := fun _ => .absent
  live := fun _ => 0
  stored := fun _ => false
  status := fun _ => false
  waiters := fun _ => []
  co := fun _ => ⟨.away, 0, false, []⟩

def ready (s : State) : Await → Bool
  | .scope m => decide (s.live m = 0)
  | .handle n => s.status n

def setPhase (s : State) (n : Nat) (p : Phase) : State :=
  { s with phase := Function.update s.phase n p }

def setCo (s : State) (j : Nat) (c : Coroutine) : State :=
  { s with co := Function.update s.co j c }

def setWaiters (s : State) (a : Await) (l : WaitList Nat) : State :=
  { s with waiters := Function.update s.waiters a l }

def fireAll (s : State) (a : Await) : State :=
  { s.setWaiters a [] with
    co := fun j =>
      if j ∈ s.waiters a then { s.co j with queued := (s.co j).queued + 1 } else s.co j }

/-- `new CancelState`, linked under `p`. -/
def addNode (s : State) (p : Option Nat) (phase : Phase) : State :=
  { s with
    next := s.next + 1,
    parent := Function.update s.parent s.next p,
    phase := Function.update s.phase s.next phase }

/-- The next access of the spawn of `n`, `retain_live_chain`, or of its completion:
`complete`, `drop_live_chain` and `wake_join_if_drained`. -/
def advance (s : State) (n : Nat) : State :=
  match s.phase n with
  | .absent | .scope | .completed => s
  | .retaining (some m) =>
      { s with live := Function.update s.live m (s.live m + 1) }.setPhase n (.retaining (s.parent m))
  | .retaining none => s.setPhase n .running
  | .running => { s with stored := Function.update s.stored n true }.setPhase n .stored
  | .stored => { s with status := Function.update s.status n true }.setPhase n .done
  | .done =>
      s.setPhase n
        (if (s.waiters (.handle n)).emptyRelaxed then .dropping (some n) else .wakingDone)
  | .wakingDone => (s.fireAll (.handle n)).setPhase n (.dropping (some n))
  | .dropping (some m) =>
      { s with live := Function.update s.live m (s.live m - 1) }.setPhase n
        (if s.live m = 1 then .draining m else .dropping (s.parent m))
  | .dropping none => s.setPhase n .completed
  | .draining m =>
      s.setPhase n
        (if (s.waiters (.scope m)).emptyRelaxed then .dropping (s.parent m) else .waking m)
  | .waking m =>
      (if s.live m = 0 then s.fireAll (.scope m) else s).setPhase n (.dropping (s.parent m))

def suspend (s : State) (j : Nat) : State :=
  match (s.co j).pc with
  | .away | .parked _ => s
  | .ready a =>
      s.setCo j { s.co j with pc := if s.ready a then .away else .push a }
  | .push a =>
      (s.setWaiters a ((s.waiters a).pushLocked j)).setCo j { s.co j with pc := .check a }
  | .check a =>
      s.setCo j { s.co j with pc := if s.ready a then .remove a else .parked a }
  | .remove a =>
      (s.setWaiters a ((s.waiters a).removeLocked j).2).setCo j
        { s.co j with pc := if ((s.waiters a).removeLocked j).1 then .away else .parked a }

def seen (s : State) (j : Nat) : Bool :=
  match (s.co j).pc.await with
  | some (.scope m) => decide (s.live m = 0)
  | _ => false

def observe (s : State) : State :=
  { s with co := fun j => { s.co j with zeroed := (s.co j).zeroed || s.seen j } }

end State

/-- The rest of an `await_suspend` that is about to take its node out of a list, or any
other step. -/
inductive Event where
  | lateRemove (j : Nat) (a : Await)
  | other
  deriving DecidableEq, Repr

inductive Step (build : Build) (s : State) : Event → State → Prop where
  | newScope (p : Option Nat) (hp : ∀ q, p = some q → s.phase q ≠ .absent) :
      Step build s .other (s.addNode p .scope).observe
  | spawn (p : Option Nat) (hp : ∀ q, p = some q → s.phase q ≠ .absent) :
      Step build s .other (s.addNode p (.retaining (some s.next))).observe
  | advance (n : Nat) : Step build s .other (s.advance n).observe
  | call (j : Nat) (a : Await) (away : (s.co j).pc = .away) :
      Step build s .other
        (s.setCo j { s.co j with pc := .ready a, zeroed := false }).observe
  | suspend (j : Nat) : Step build s .other (s.suspend j).observe
  | resume (j : Nat) (a : Await) (parked : (s.co j).pc = .parked a) (queued : 0 < (s.co j).queued) :
      Step build s .other
        (s.setCo j { s.co j with pc := .away, queued := (s.co j).queued - 1 }).observe
  | resumeEarly (j : Nat) (a : Await) (rest : Rest) (shared : build = .shared)
      (queued : 0 < (s.co j).queued)
      (suspending : (s.co j).pc = .check a ∧ rest = .check a ∨
        (s.co j).pc = .remove a ∧ rest = .remove a) :
      Step build s .other
        (s.setCo j
          { s.co j with
            pc := .away,
            queued := (s.co j).queued - 1,
            rests := rest :: (s.co j).rests }).observe
  | lateCheck (j : Nat) (a : Await) (left : .check a ∈ (s.co j).rests) :
      Step build s .other
        (s.setCo j
          { s.co j with
            rests := if s.ready a then .remove a :: (s.co j).rests.erase (.check a)
              else (s.co j).rests.erase (.check a) }).observe
  | lateRemove (j : Nat) (a : Await) (left : .remove a ∈ (s.co j).rests) :
      Step build s (.lateRemove j a)
        ((s.setWaiters a ((s.waiters a).removeLocked j).2).setCo j
          { s.co j with
            pc := if ((s.waiters a).removeLocked j).1 then .away else (s.co j).pc,
            rests := (s.co j).rests.erase (.remove a) }).observe

abbrev Runs (build : Build) (ok : State → Event → Prop) : State → Prop :=
  LabelledRuns (· = .new) (Step build) ok

/-- No `await_suspend` whose coroutine was resumed finds its node in a list again; `remove`
looks at `in_list` of the node only. -/
def Timely (s : State) : Event → Prop
  | .lateRemove j _ => ∀ a, j ∉ s.waiters a
  | .other => True

def Settled (s : State) : Prop :=
  ∀ n, s.phase n = .absent ∨ s.phase n = .scope ∨ s.phase n = .running ∨ s.phase n = .completed

structure Idle (s : State) : Prop where
  settled : Settled s
  suspended : ∀ j, (s.co j).pc = .away ∨ ∃ a, (s.co j).pc = .parked a
  unqueued : ∀ j, (s.co j).queued = 0

structure Joined (build : Build) (s : State) : Prop where
  counted : Settled s → ∀ m, ∃ tasks : Finset Nat,
    (∀ n, n ∈ tasks ↔ s.phase n = .running ∧ Above s.parent m n) ∧ s.live m = tasks.card
  drained : ∀ e s', Timely s e → Step build s e s' → ∀ j m,
    (s.co j).pc.await = some (.scope m) → (s'.co j).pc.await ≠ some (.scope m) →
      (s.co j).zeroed = true
  stored : ∀ e s', Timely s e → Step build s e s' → ∀ j n,
    (s.co j).pc.await = some (.handle n) → (s'.co j).pc.await ≠ some (.handle n) →
      s.stored n = true
  awake : Idle s → ∀ j m, (s.co j).pc = .parked (.scope m) → s.live m ≠ 0
  told : Idle s → ∀ j n, (s.co j).pc = .parked (.handle n) → s.status n = false

end Uvent.Tasks.Joins
