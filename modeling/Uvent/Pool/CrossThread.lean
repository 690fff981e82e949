import Uvent.Queue.IntrusiveMpsc
import Uvent.Queue.SegmentedEmpty

/-!
# Work handed to a worker

The `ThreadLocalStorage` of one worker, which any thread hands frames, cancel kicks
and socket operations, and the loop of that worker from the moment its poller is
registered.  Every access to a queue, a flag or the eventfd is one step.

The eventfd is in the epoll set with `EPOLLET`: a write puts it into the ready list,
and `epoll_wait` takes it from there, when there is something to read.
-/

namespace Uvent.Pool

open Uvent.Lib Uvent.Queue Uvent.Queue.Intrusive

/-- The two intrusive queues, `inbox_q_` and `kick_q_`. -/
inductive Box where
  | inbox
  | kicks
  deriving DecidableEq, Repr

/-- Where the loop is; `work` is what it does between the poll and
`processInboxQueue`.  `popping` and `bulk` are the loops that empty a queue. -/
inductive WorkerPc (α : Type) where
  | poll
  | read
  | clear
  | work
  | takeFlag (b : Box)
  | popping (b : Box)
  | takeOps
  | bulk (pc : Segmented.Pc α)

/-- A thread that hands something over: in the push, before the store of the flag, or
in `kick_poller`. -/
inductive PusherPc (α : Type) where
  | idle
  | push (b : Box) (pc : PushPc)
  | setAdded (b : Box)
  | enqueue (pc : Segmented.Pc α)
  | setSockOps
  | wake
  | write

/-- `added` are `is_added_new_` and `has_kicks_`. -/
structure Storage (α : Type) where
  box : Box → MpscQueue
  added : Box → Bool
  ops : Segmented.Chain α
  hasSockOps : Bool
  wakePending : Bool
  eventfd : Nat
  armed : Bool
  worker : WorkerPc α

def Storage.new {α : Type} : Storage α :=
  ⟨fun _ => .new, fun _ => false, .new, false, false, 0, false, .poll⟩

section Steps

variable {α : Type}

namespace Storage

def setBox (s : Storage α) (b : Box) (q : MpscQueue) : Storage α :=
  { s with box := Function.update s.box b q }

def setAdded (s : Storage α) (b : Box) (added : Bool) : Storage α :=
  { s with added := Function.update s.added b added }

end Storage

def afterBox : Box → WorkerPc α
  | .inbox => .takeFlag .kicks
  | .kicks => .takeOps

def findsNothing : Segmented.Pc α → Bool
  | .checkEmpty _ _ _ | .loadHeadNext _ _ => true
  | _ => false

/-- `if (n == 0) break`, when the dequeue has returned. -/
def afterBulk (pc : Segmented.Pc α) : Segmented.Pc α → WorkerPc α
  | .idle => if findsNothing pc then .poll else .bulk .idle
  | pc' => .bulk pc'

/-- The socket operation is in its queue when `enqueue` has returned. -/
def afterEnqueue : Segmented.Pc α → PusherPc α
  | .idle => .setSockOps
  | pc => .enqueue pc

abbrev System (α : Type) := World Nat (Storage α) (PusherPc α)

/-- A step of a thread; in the queue of the socket operations thread `t` is `t + 1`. -/
inductive PushStep (size : Nat) (s : Storage α) (t : Nat) : PusherPc α → Storage α →
    PusherPc α → Prop where
  | push (b : Box) (n : Nat) (hn : (s.box b).busy n = false) :
      PushStep size s t .idle
        (s.setBox b { (s.box b).setNext (.node n) none with
          busy := Function.update (s.box b).busy n true })
        (.push b (.exchange n))
  | exchange (b : Box) (n : Nat) :
      PushStep size s t (.push b (.exchange n))
        (s.setBox b { s.box b with tail := .node n, pushed := (s.box b).pushed ++ [n] })
        (.push b (.link (s.box b).tail n))
  | link (b : Box) (n : Nat) (prev : Ptr) :
      PushStep size s t (.push b (.link prev n))
        (s.setBox b ((s.box b).setNext prev (some (.node n)))) (.setAdded b)
  | setAdded (b : Box) : PushStep size s t (.setAdded b) (s.setAdded b true) .wake
  | call (op : α) :
      PushStep size s t .idle
        { s with ops := ((Segmented.Call.enqueue op).start size (t + 1) s.ops).1 }
        (.enqueue ((Segmented.Call.enqueue op).start size (t + 1) s.ops).2)
  | enqueue (pc : Segmented.Pc α) (spurious : Bool) (busy : pc ≠ .idle) :
      PushStep size s t (.enqueue pc)
        { s with ops := (Segmented.exec size (t + 1) spurious s.ops pc).1 }
        (afterEnqueue (Segmented.exec size (t + 1) spurious s.ops pc).2)
  | setSockOps : PushStep size s t .setSockOps { s with hasSockOps := true } .wake
  | wakePoller : PushStep size s t .idle s .wake
  | wake :
      PushStep size s t .wake { s with wakePending := true } (if s.wakePending then .idle else .write)
  | write : PushStep size s t .write { s with eventfd := s.eventfd + 1, armed := true } .idle

inductive WorkerStep (size : Nat) (s : Storage α) : Storage α → Prop where
  | woken (h : s.worker = .poll) (harmed : s.armed = true) (hfd : 0 < s.eventfd) :
      WorkerStep size s { s with armed := false, worker := .read }
  | timeout (h : s.worker = .poll) :
      WorkerStep size s { s with armed := s.armed && decide (0 < s.eventfd), worker := .work }
  | read (h : s.worker = .read) : WorkerStep size s { s with eventfd := 0, worker := .clear }
  | clear (h : s.worker = .clear) :
      WorkerStep size s { s with wakePending := false, worker := .work }
  | work (h : s.worker = .work) : WorkerStep size s { s with worker := .takeFlag .inbox }
  | takeFlag (b : Box) (h : s.worker = .takeFlag b) :
      WorkerStep size s (if s.added b then
          { (s.setAdded b false).setBox b { s.box b with pop := .first } with worker := .popping b }
        else { s with worker := afterBox b })
  | popStep (b : Box) (h : s.worker = .popping b) (hpop : (s.box b).pop ≠ .idle) :
      WorkerStep size s (s.setBox b (s.box b).popStep)
  | popped (b : Box) (h : s.worker = .popping b) (hpop : (s.box b).pop = .idle) :
      WorkerStep size s (if (s.box b).result.isSome then s.setBox b { s.box b with pop := .first }
        else { s with worker := afterBox b })
  | takeOps (h : s.worker = .takeOps) :
      WorkerStep size s (if s.hasSockOps then { s with hasSockOps := false, worker := .bulk .idle }
        else { s with worker := .poll })
  | callBulk (h : s.worker = .bulk .idle) :
      WorkerStep size s
        { s with
          ops := ((Segmented.Call.tryDequeueBulk 64).start size 0 s.ops).1,
          worker := .bulk ((Segmented.Call.tryDequeueBulk 64).start size 0 s.ops).2 }
  | bulk (pc : Segmented.Pc α) (spurious : Bool) (h : s.worker = .bulk pc) (busy : pc ≠ .idle) :
      WorkerStep size s
        { s with
          ops := (Segmented.exec size 0 spurious s.ops pc).1,
          worker := afterBulk pc (Segmented.exec size 0 spurious s.ops pc).2 }

inductive Step (size : Nat) (w : System α) : System α → Prop where
  | push {t : Nat} {s : Storage α} {pc : PusherPc α} (h : PushStep size w.shared t (w.own t) s pc) :
      Step size w ⟨s, Function.update w.own t pc⟩
  | worker {s : Storage α} (h : WorkerStep size w.shared s) : Step size w { w with shared := s }

inductive Runs (size : Nat) : System α → Prop where
  | start : Runs size ⟨.new, fun _ => .idle⟩
  | step {w w' : System α} (hw : Runs size w) (hstep : Step size w w') : Runs size w'

end Steps

/-- Nobody is in a push or a wake, and the worker waits for an eventfd that nobody has
written since it looked. -/
structure Asleep {α : Type} (w : System α) : Prop where
  threads : ∀ t, w.own t = .idle
  worker : w.shared.worker = .poll
  seen : ¬ (w.shared.armed = true ∧ 0 < w.shared.eventfd)

structure Served {α : Type} (w : System α) : Prop where
  boxes : ∀ b, (w.shared.box b).returned = (w.shared.box b).pushed.map .node
  ops : ∀ k i t op v, (w.shared.ops.segs k).fate i = .put t op v →
    ∃ c, (w.shared.ops.segs k).got i = [(c, some v)]

end Uvent.Pool
