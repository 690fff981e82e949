import Uvent.Lib.LabelledRuns
import Mathlib.Algebra.Group.Nat.Defs
import Mathlib.Data.List.TakeDrop
import Mathlib.Logic.Function.Basic

/-!
# The drain

`Uvent::stop()` with a timeout, and `Thread::drainStep` of the workers.  Every access to an
atomic is one step, and so are a section under `ext_mtx_` and what a sweep does with one task.
Tasks are registered by workers that are in their loop and by other threads, and complete at
any time; what a worker does when it has left its loop is not followed.

`registered` are all tasks that were ever registered on a worker, in order.  A sweep has seen
the first `taken` of them, the flag of the worker stands for a sweep that has seen the first
`flagged`, and worker 0 goes by one that has seen the first `relied`.
-/

namespace Uvent.System.Drain

open Uvent.Lib

/-- Where a worker is: in its loop, in `sweep_tasks` for the drain or for `register_task`, or in
`drainStep`; `idle` is `all_idle`. -/
inductive Pc where
  | loop
  | cancelTake
  | cancel (rest : List Nat)
  | sweepTake (drain : Bool)
  | sweep (drain : Bool) (kept rest : List Nat)
  | setIdle (live : Nat)
  | readIdle (i : Nat) (idle : Bool)
  | readClock (idle : Bool)
  | compare (idle : Bool) (now : Nat)
  | request (idle : Bool)
  | stopped
  deriving DecidableEq, Repr

structure Worker where
  pc : Pc
  started : Bool
  tasks : List Nat
  sweepAt : Nat
  extTasks : List Nat
  drainIdle : Bool
  registered : List Nat
  taken : Nat
  flagged : Nat
  relied : Nat

/-- Where the call of `stop` is. -/
inductive Stop where
  | ready
  | called
  | flagged
  | timed (now : Nat)
  | returned
  deriving DecidableEq, Repr

structure State where
  worker : Nat → Worker
  done : Nat → Bool
  draining : Bool
  drainDeadlineNs : Nat
  clock : Nat
  stop : Stop
  calledAt : Option Nat

def Worker.new : Worker := ⟨.loop, false, [], 64, [], false, [], 0, 0, 0⟩

namespace Worker

def takeExternal (x : Worker) : Worker := { x with tasks := x.tasks ++ x.extTasks, extTasks := [] }

def register (x : Worker) (task : Nat) : Worker :=
  { x with
    tasks := x.tasks ++ [task],
    registered := x.registered ++ [task],
    pc := if x.sweepAt ≤ x.tasks.length + 1 then .sweepTake false else .loop }

def registerExternal (x : Worker) (task : Nat) : Worker :=
  { x with extTasks := x.extTasks ++ [task], registered := x.registered ++ [task] }

def swept (x : Worker) (drain : Bool) (kept : List Nat) : Worker :=
  { x with
    tasks := kept,
    sweepAt := max 64 (kept.length * 2),
    pc := if drain then .setIdle kept.length else .loop }

/-- `set_drain_idle`, after which worker 0 looks at the flags. -/
def setIdle (x : Worker) (index live : Nat) : Worker :=
  { x with
    drainIdle := decide (live = 0),
    flagged := x.taken,
    pc := if index = 0 then .readIdle 0 true else .loop }

end Worker

namespace State

def new (clock : Nat) : State := ⟨fun _ => .new, fun _ => false, false, 0, clock, .ready, none⟩

def setWorker (s : State) (w : Nat) (x : Worker) : State :=
  { s with worker := Function.update s.worker w x }

def goto (s : State) (w : Nat) (pc : Pc) : State := s.setWorker w { s.worker w with pc := pc }

def relyOn (s : State) (i : Nat) : State :=
  s.setWorker i { s.worker i with relied := (s.worker i).flagged }

def Fresh (s : State) (task : Nat) : Prop :=
  s.done task = false ∧ ∀ w, task ∉ (s.worker w).registered

end State

inductive Event where
  | storeDeadline
  | readDeadline
  | requestStopAll
  | other
  deriving DecidableEq, Repr

/-- `stop_drain_timeout_ms * 1000000ull`, before it wraps around. -/
def timeoutNs (timeout : Nat) : Nat := timeout * 1000000

section Runtime

variable (threads timeout : Nat)

inductive Step (s : State) : Event → State → Prop where
  | tick (clock : Nat) (later : s.clock ≤ clock) : Step s .other { s with clock := clock }
  | complete (task : Nat) : Step s .other { s with done := Function.update s.done task true }
  | register (w task : Nat) (worker : w < threads) (pc : (s.worker w).pc = .loop)
      (fresh : s.Fresh task) : Step s .other (s.setWorker w ((s.worker w).register task))
  | registerExternal (task : Nat) (running : 0 < threads) (fresh : s.Fresh task) :
      Step s .other (s.setWorker 0 ((s.worker 0).registerExternal task))
  | call (ready : s.stop = .ready) :
      Step s .other { s with stop := .called, calledAt := some s.clock }
  | exchange (called : s.stop = .called) (timed : 0 < timeout) (first : s.draining = false) :
      Step s .other { s with stop := .flagged, draining := true }
  | now (flagged : s.stop = .flagged) : Step s .other { s with stop := .timed s.clock }
  | storeDeadline (now : Nat) (timed : s.stop = .timed now) :
      Step s .storeDeadline
        { s with stop := .returned, drainDeadlineNs := (now + timeoutNs timeout) % 2 ^ 64 }
  | drainStart (w : Nat) (worker : w < threads) (pc : (s.worker w).pc = .loop)
      (draining : s.draining = true) (first : (s.worker w).started = false) :
      Step s .other (s.setWorker w { s.worker w with started := true, pc := .cancelTake })
  | drainAgain (w : Nat) (worker : w < threads) (pc : (s.worker w).pc = .loop)
      (draining : s.draining = true) (started : (s.worker w).started = true) :
      Step s .other (s.goto w (.sweepTake true))
  | cancelTake (w : Nat) (pc : (s.worker w).pc = .cancelTake) :
      Step s .other
        (s.setWorker w
          { (s.worker w).takeExternal with pc := .cancel (s.worker w).takeExternal.tasks })
  | cancel (w task : Nat) (rest : List Nat) (pc : (s.worker w).pc = .cancel (task :: rest)) :
      Step s .other (s.goto w (.cancel rest))
  | cancelled (w : Nat) (pc : (s.worker w).pc = .cancel []) :
      Step s .other (s.goto w (.sweepTake true))
  | sweepTake (w : Nat) (drain : Bool) (pc : (s.worker w).pc = .sweepTake drain) :
      Step s .other
        (s.setWorker w
          { (s.worker w).takeExternal with
            taken := (s.worker w).registered.length,
            pc := .sweep drain [] (s.worker w).takeExternal.tasks })
  | sweep (w task : Nat) (drain : Bool) (kept rest : List Nat)
      (pc : (s.worker w).pc = .sweep drain kept (task :: rest)) :
      Step s .other
        (s.goto w (.sweep drain (if s.done task then kept else kept ++ [task]) rest))
  | swept (w : Nat) (drain : Bool) (kept : List Nat) (pc : (s.worker w).pc = .sweep drain kept []) :
      Step s .other (s.setWorker w ((s.worker w).swept drain kept))
  | setIdle (w live : Nat) (pc : (s.worker w).pc = .setIdle live) :
      Step s .other (s.setWorker w ((s.worker w).setIdle w live))
  | readIdle (i : Nat) (pc : (s.worker 0).pc = .readIdle i true) (more : i < threads) :
      Step s .other ((s.relyOn i).goto 0 (.readIdle (i + 1) (s.worker i).drainIdle))
  | readIdleEnd (i : Nat) (idle : Bool) (pc : (s.worker 0).pc = .readIdle i idle)
      (finished : idle = true → threads ≤ i) : Step s .other (s.goto 0 (.readClock idle))
  | readClock (idle : Bool) (pc : (s.worker 0).pc = .readClock idle) :
      Step s .other (s.goto 0 (.compare idle s.clock))
  | compareIdle (now : Nat) (pc : (s.worker 0).pc = .compare true now) :
      Step s .other (s.goto 0 (.request true))
  | compareLate (now : Nat) (pc : (s.worker 0).pc = .compare false now)
      (late : s.drainDeadlineNs ≤ now) : Step s .readDeadline (s.goto 0 (.request false))
  | compareEarly (now : Nat) (pc : (s.worker 0).pc = .compare false now)
      (early : now < s.drainDeadlineNs) : Step s .readDeadline (s.goto 0 .loop)
  | requestStopAll (idle : Bool) (pc : (s.worker 0).pc = .request idle) :
      Step s .requestStopAll (s.goto 0 .stopped)

abbrev Runs (ok : State → Event → Prop) : State → Prop :=
  LabelledRuns (fun s => ∃ clock, s = .new clock) (Step threads timeout) ok

/-- The deadline does not wrap around, it is not read before it is stored, and when worker 0
stops the workers because all flags are up, then no task was registered on a worker after the
sweep whose flag worker 0 has read. -/
def Settled (s : State) : Event → Prop
  | .storeDeadline => ∀ now, s.stop = .timed now → now + timeoutNs timeout < 2 ^ 64
  | .readDeadline => s.stop = .returned
  | .requestStopAll => (s.worker 0).pc = .request true →
      ∀ w, (s.worker w).registered.length ≤ (s.worker w).relied
  | .other => True

/-- Every task registered so far is done, or the timeout has passed since `stop` was called. -/
def Drained (s : State) : Prop :=
  (∀ w, ∀ task ∈ (s.worker w).registered, s.done task = true) ∨
    ∃ called, s.calledAt = some called ∧ called + timeoutNs timeout ≤ s.clock

end Runtime

end Uvent.System.Drain
