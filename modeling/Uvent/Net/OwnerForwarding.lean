import Uvent.Lib.Interleave
import Uvent.Lib.LabelledRuns
import Uvent.Net.StateWord
import Mathlib.Data.Finset.Card

/-!
# Socket owner forwarding

One TCP socket header of a `UVENT_ENABLE_REUSEADDR` epoll build, its owner worker
and any number of other workers that hold handles of it.  Poller, timer wheel and
delete queue belong to the owner; the others forward `SocketOp`s to it.  Every
access to a word that another worker reads or writes is one step.  `timer_id` is
written by the owner alone, so the owner's own loads of it are part of its next
access.

The wheel is known here by the one timer that is embedded in the header, and
`ops` holds the forwarded operations that the owner has not begun to apply, in
queue order.  `handles` are the live `Socket` objects.  `taken` and `dropped`
count the references the timer got and gave back, and `destroys` the calls of
`destroy`.
-/

namespace Uvent.Net.Forwarding

open Uvent.Lib Uvent.Net.StateWord

inductive SocketOp where
  | timeout (timeoutMs : Nat)
  | shutdown
  | destroy
  deriving DecidableEq, Repr

structure ArmedTimer where
  id : Nat
  timeoutMs : Nat
  deriving DecidableEq, Repr

structure Header where
  state : Word
  timerId : Nat
  claimed : Bool
  teardownPending : Bool
  destroyed : Bool
  pendingOps : Nat
  ops : List SocketOp
  wheel : Option ArmedTimer
  nextTimerId : Nat
  handles : Finset Nat
  nextHandle : Nat
  retired : Nat
  taken : Nat
  dropped : Nat
  destroys : Nat

def Header.new : Header where
  state := initialState
  timerId := 0
  claimed := false
  teardownPending := false
  destroyed := false
  pendingOps := 0
  ops := []
  wheel := none
  nextTimerId := 1
  handles := {0}
  nextHandle := 1
  retired := 0
  taken := 0
  dropped := 0
  destroys := 0

/-- Where a worker is; `h` is the handle its call is made on.  `took` says that
`set_timeout_ms` got its reference, `hadTimer` is the local of `shutdown`, and
`forOp` that the teardown is the application of a forwarded `Destroy`. -/
inductive Pc where
  | idle
  | copy (h : Nat)
  | setLoad (h timeoutMs : Nat)
  | setAddRef (h timeoutMs : Nat)
  | setClear (h timeoutMs : Nat) (took : Bool)
  | setArm (h timeoutMs : Nat)
  | updateLoad (h timeoutMs : Nat)
  | shutLoad (h : Nat)
  | shutClaim (h : Nat)
  | shutRelease (h : Nat)
  | forwardCount (h : Nat) (op : SocketOp) (hadTimer : Bool)
  | forwardPush (h : Nat) (op : SocketOp) (hadTimer : Bool)
  | destroyMark
  | destroyCount
  | destroyPush
  | tearCancel (forOp : Bool)
  | tearClose (forOp : Bool)
  | tearFlag (forOp : Bool)
  | tearCheck (forOp : Bool)
  | callbackClaim
  | callbackReset (adopted : Bool)
  | callbackRelease
  | opArm (timeoutMs : Nat)
  | opCancel
  | opDone
  | opFree
  deriving DecidableEq, Repr

namespace Pc

def handle : Pc → Option Nat
  | .copy h | .setLoad h _ | .setAddRef h _ | .setClear h _ _ | .setArm h _ | .updateLoad h _ => some h
  | .shutLoad h | .shutClaim h | .shutRelease h => some h
  | .forwardCount h _ _ | .forwardPush h _ _ => some h
  | _ => none

end Pc

namespace Header

/-- `TimerWheel::updateTimer` on the timer of this header. -/
def updateTimer (s : Header) (id timeoutMs : Nat) : Header :=
  { s with wheel := s.wheel.map fun timer => if timer.id = id then { timer with timeoutMs } else timer }

/-- `TimerWheel::cancelTimer`, which says whether there was such a timer. -/
def cancelTimer (s : Header) (id : Nat) : Bool × Header :=
  if s.wheel.any fun timer => timer.id = id then (true, { s with wheel := none }) else (false, s)

def armOrRefreshSocketTimer (s : Header) (timeoutMs : Nat) : Header :=
  if s.timerId = 0 then
    { s with
      wheel := some ⟨s.nextTimerId, timeoutMs⟩,
      timerId := s.nextTimerId,
      nextTimerId := s.nextTimerId + 1 }
  else s.updateTimer s.timerId timeoutMs

/-- Cancels the timer and resets `timer_id`, where there is one. -/
def cancelArmed (s : Header) : Header :=
  if s.timerId = 0 then s else { (s.cancelTimer s.timerId).2 with timerId := 0 }

/-- `RefCounted::release`; the last reference starts `destroy`, which tears down
in place on the owner and forwards elsewhere. -/
def release (owner t : Nat) (s : Header) : Header × Pc :=
  if (StateWord.release s.state).1 then
    ({ s with state := (StateWord.release s.state).2, destroys := s.destroys + 1 },
      if t = owner then .tearCancel false else .destroyMark)
  else ({ s with state := (StateWord.release s.state).2 }, .idle)

/-- `~Socket` of the handle `h`. -/
def dropHandle (owner t : Nat) (s : Header) (h : Nat) : Header × Pc :=
  { s with handles := s.handles.erase h }.release owner t

/-- The owner begins to apply the oldest operation: it loads `tflags`. -/
def applySocketOp (s : Header) (rest : List SocketOp) : SocketOp → Header × Pc
  | .timeout timeoutMs =>
      ({ s with ops := rest },
        if s.destroyed || s.teardownPending || (decide (s.timerId = 0) && s.claimed) then .opDone
        else .opArm timeoutMs)
  | .shutdown => ({ s with ops := rest }, if s.destroyed then .opDone else .opCancel)
  | .destroy => ({ s with ops := rest }, if s.destroyed then .opDone else .tearCancel true)

end Header

/-- One access of worker `t`, which is in a call, in the timer callback or in
`apply_socket_op`. -/
def exec (owner t : Nat) (s : Header) : Pc → Header × Pc
  | .idle => (s, .idle)
  | .copy _ =>
      ({ s with
          state := addRef s.state,
          handles := insert s.nextHandle s.handles,
          nextHandle := s.nextHandle + 1 }, .idle)
  | .setLoad h timeoutMs =>
      if s.timerId = 0 then (s, .setAddRef h timeoutMs)
      else if t = owner then (s.updateTimer s.timerId timeoutMs, .idle)
      else (s, .forwardCount h (.timeout timeoutMs) false)
  | .setAddRef h timeoutMs =>
      if (tryAddRef s.state).1 then
        ({ s with state := (tryAddRef s.state).2, taken := s.taken + 1 }, .setClear h timeoutMs true)
      else (s, .setClear h timeoutMs false)
  | .setClear h timeoutMs _ =>
      ({ s with claimed := false },
        if t = owner then .setArm h timeoutMs else .forwardCount h (.timeout timeoutMs) false)
  | .setArm _ timeoutMs => (s.armOrRefreshSocketTimer timeoutMs, .idle)
  | .updateLoad h timeoutMs =>
      if t = owner then (s.updateTimer s.timerId timeoutMs, .idle)
      else if s.timerId = 0 then (s, .idle)
      else (s, .forwardCount h (.timeout timeoutMs) false)
  | .shutLoad h =>
      if t = owner then
        if s.timerId ≠ 0 ∧ (s.cancelTimer s.timerId).1 = true then (s.cancelArmed, .shutClaim h)
        else (s, .idle)
      else (s, .forwardCount h .shutdown (decide (s.timerId ≠ 0)))
  | .shutClaim h => ({ s with claimed := true }, if s.claimed then .idle else .shutRelease h)
  | .shutRelease _ => { s with dropped := s.dropped + 1 }.release owner t
  | .forwardCount h op hadTimer =>
      ({ s with pendingOps := s.pendingOps + 1 }, .forwardPush h op hadTimer)
  | .forwardPush h op hadTimer =>
      ({ s with ops := s.ops ++ [op] }, if hadTimer then .shutClaim h else .idle)
  | .destroyMark => ({ s with teardownPending := true }, .destroyCount)
  | .destroyCount => ({ s with pendingOps := s.pendingOps + 1 }, .destroyPush)
  | .destroyPush => ({ s with ops := s.ops ++ [.destroy] }, .idle)
  | .tearCancel forOp => (s.cancelArmed, .tearClose forOp)
  | .tearClose forOp => ({ s with state := closeForNewRefs s.state }, .tearFlag forOp)
  | .tearFlag forOp => ({ s with destroyed := true }, .tearCheck forOp)
  | .tearCheck forOp =>
      ({ s with retired := s.retired + if s.pendingOps = 0 then 1 else 0 },
        if forOp then .opDone else .idle)
  | .callbackClaim =>
      ({ s with claimed := true }, .callbackReset (!s.claimed && !s.teardownPending))
  | .callbackReset adopted =>
      ({ s with timerId := 0 }, if adopted then .callbackRelease else .idle)
  | .callbackRelease => { s with dropped := s.dropped + 1 }.release owner t
  | .opArm timeoutMs => (s.armOrRefreshSocketTimer timeoutMs, .opDone)
  | .opCancel => (s.cancelArmed, .opDone)
  | .opDone =>
      ({ s with pendingOps := s.pendingOps - 1 }, if s.pendingOps = 1 then .opFree else .idle)
  | .opFree => ({ s with retired := s.retired + if s.destroyed then 1 else 0 }, .idle)

abbrev Workers := World Nat Header Pc

def Workers.move (w : Workers) (t : Nat) (r : Header × Pc) : Workers :=
  ⟨r.1, Function.update w.own t r.2⟩

/-- One step of worker `t`.  A call is made on a live handle, and a handle is not
destroyed while a call on it is in progress. -/
inductive Step (owner : Nat) (w : Workers) (t : Nat) : Workers → Prop where
  | call (pc : Pc) (h : Nat) (timeoutMs : Nat) (idle : w.own t = .idle)
      (live : h ∈ w.shared.handles)
      (hpc : pc ∈ [.copy h, .setLoad h timeoutMs, .updateLoad h timeoutMs, .shutLoad h]) :
      Step owner w t (w.move t (w.shared, pc))
  | drop (h : Nat) (idle : w.own t = .idle) (live : h ∈ w.shared.handles)
      (unused : ∀ t', (w.own t').handle ≠ some h) :
      Step owner w t (w.move t (w.shared.dropHandle owner t h))
  | fire (idle : w.own t = .idle) (home : t = owner) (armed : w.shared.wheel.isSome = true) :
      Step owner w t (w.move t ({ w.shared with wheel := none }, .callbackClaim))
  | apply (op : SocketOp) (rest : List SocketOp) (idle : w.own t = .idle) (home : t = owner)
      (queued : w.shared.ops = op :: rest) :
      Step owner w t (w.move t (w.shared.applySocketOp rest op))
  | exec (busy : w.own t ≠ .idle) : Step owner w t (w.move t (exec owner t w.shared (w.own t)))

abbrev Runs (owner : Nat) (ok : Workers → Nat → Prop) : Workers → Prop :=
  LabelledRuns (· = ⟨.new, fun _ => .idle⟩) (Step owner) ok

def Quiet (w : Workers) : Prop := ∀ t, w.own t = .idle

def SocketOp.isTimeout : SocketOp → Bool
  | .timeout _ => true
  | _ => false

/-- The timer is armed or an arm for it is queued, and its reference is not
claimed. -/
def Header.timerRef (s : Header) : Nat :=
  if s.claimed = false ∧ (s.wheel.isSome = true ∨ s.ops.any (·.isTimeout) = true) then 1 else 0

end Uvent.Net.Forwarding
