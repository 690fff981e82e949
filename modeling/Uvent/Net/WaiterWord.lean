import Mathlib.Logic.Function.Basic
import Mathlib.Data.List.Nodup

/-!
# The wake-up words of a socket

A TCP socket header with its read and its write word, the poller, the timeout callback,
cancel hooks on any number of threads, and one coroutine for each direction that reads,
accepts, writes or connects.  Every access to a word is one step.

A `Side` is one direction.  `avail` is what the kernel has for its coroutine (bytes,
connections or free space) and `fresh` what of it arrived since the last probe that found
nothing; `edges` are the edges of the arrivals that `epoll_wait` has not returned yet.
Every call of `suspend_on` has a number, its `turn`, and the lists tell in which turns a
handle was published, a park refused, a handle handed out and the coroutine enqueued.
-/

namespace Uvent.Net.Waiter

inductive Build where
  | reuseaddr
  | shared
  deriving DecidableEq, Repr

inductive Direction where
  | read
  | write
  deriving DecidableEq, Repr

/-- A wake-up word: 0, `READY` or the address of a parked coroutine. -/
inductive Word where
  | idle
  | ready
  | parked (h : Nat)
  deriving DecidableEq, Repr

/-- Where the coroutine of a direction is: `armed` to `probe` in the loop of the call,
`clearBusy` to `refused` in `suspend_on`, `swap` with the value that `park` saw last. -/
inductive Pc where
  | away
  | armed
  | disarm
  | probe
  | clearBusy
  | armCancel
  | load
  | swap (cur : Word)
  | refused
  | asleep
  | resumed
  deriving DecidableEq, Repr

inductive Hand where
  | poller
  | callback
  | hook (t : Nat)
  deriving DecidableEq, Repr

structure Side where
  word : Word
  pc : Pc
  reader : Nat
  avail : Nat
  fresh : Nat
  edges : Nat
  queued : Nat
  hand : Hand → Option Nat
  turn : Nat
  published : List Nat
  refusals : List Nat
  handed : List Nat
  enqueued : List Nat

namespace Side

def new : Side := ⟨.idle, .away, 0, 0, 0, 0, 0, fun _ => none, 0, [], [], [], []⟩

def goto (x : Side) (pc : Pc) : Side := { x with pc := pc }

/-- `word.exchange(v)` by someone who resumes the handle that was there. -/
def exchange (x : Side) (who : Hand) (v : Word) : Side :=
  match x.word with
  | .parked _ =>
      { x with
        word := v, hand := Function.update x.hand who (some x.turn), handed := x.turn :: x.handed }
  | _ => { x with word := v }

def fire (x : Side) : Side := x.exchange .poller .ready

def take (x : Side) : Side := x.exchange .callback .idle

/-- `unpark_read` and `unpark_write`, in the hook that runs on thread `t`. -/
def unpark (x : Side) (t h : Nat) : Side :=
  if x.word = .parked h then x.exchange (.hook t) .idle else x

/-- `resume_waiter` for the handle in the hand, if there is one. -/
def resumeWaiter (x : Side) (who : Hand) : Side :=
  match x.hand who with
  | some n =>
      { x with
        hand := Function.update x.hand who none, queued := x.queued + 1,
        enqueued := n :: x.enqueued }
  | none => x

def abandon (x : Side) (who : Hand) : Side := { x with hand := Function.update x.hand who none }

def enqueueSelf (x : Side) : Side :=
  { x with queued := x.queued + 1, enqueued := x.turn :: x.enqueued, pc := .asleep }

def isArmed (x : Side) : Side := x.goto (if x.word = .ready then .disarm else .probe)

def disarm (x : Side) : Side :=
  { x with word := if x.word = .ready then .idle else x.word, pc := .probe }

def got (x : Side) (k : Nat) (pc : Pc) : Side :=
  { x with avail := x.avail - k, fresh := 0, pc := pc }

def failed (x : Side) (pc : Pc) : Side := { x with fresh := 0, pc := pc }

def suspend (x : Side) (pc : Pc) : Side := { x with turn := x.turn + 1, pc := pc }

def consume (x : Side) : Side :=
  { x with word := .idle, refusals := x.turn :: x.refusals, pc := .refused }

def publish (x : Side) : Side :=
  { x with word := .parked x.reader, published := x.turn :: x.published, pc := .asleep }

def wake (x : Side) : Side := { x with queued := x.queued - 1, pc := .resumed }

def arrive (x : Side) : Side :=
  { x with avail := x.avail + 1, fresh := x.fresh + 1, edges := x.edges + 1 }

end Side

open Side

/-- A step of the coroutine of a direction.  With the fd closed every probe fails for good. -/
inductive ReaderStep (build : Build) (closed : Bool) (d : Direction) (x : Side) : Side → Prop where
  | call (h : Nat) (hpc : x.pc = .away) :
      ReaderStep build closed d x { x with reader := h, pc := .armed }
  | connect (h : Nat) (hpc : x.pc = .away) (hd : d = .write) (hopen : closed = false) :
      ReaderStep build closed d x { x.failed .clearBusy with reader := h }
  | isArmed (hpc : x.pc = .armed) : ReaderStep build closed d x x.isArmed
  | disarm (hpc : x.pc = .disarm) : ReaderStep build closed d x x.disarm
  | got (k : Nat) (pc : Pc) (hpc : x.pc = .probe) (hopen : closed = false) (hpos : 0 < k)
      (hk : k ≤ x.avail) (hnext : pc = .armed ∨ pc = .away) :
      ReaderStep build closed d x (x.got k pc)
  | again (pc : Pc) (hpc : x.pc = .probe) (hopen : closed = false) (hempty : x.avail = 0)
      (hnext : pc = .clearBusy ∨ pc = .away) : ReaderStep build closed d x (x.failed pc)
  | exhausted (hpc : x.pc = .probe) (hopen : closed = false) :
      ReaderStep build closed d x (x.failed .clearBusy)
  | interrupted (hpc : x.pc = .probe) (hopen : closed = false) :
      ReaderStep build closed d x (x.goto .armed)
  | error (hpc : x.pc = .probe) : ReaderStep build closed d x (x.goto .away)
  | clearBusy (hpc : x.pc = .clearBusy) :
      ReaderStep build closed d x
        (x.suspend (match build with | .reuseaddr => .armCancel | .shared => .load))
  | cancelled (hpc : x.pc = .armCancel) : ReaderStep build closed d x x.enqueueSelf
  | armCancel (hpc : x.pc = .armCancel) : ReaderStep build closed d x (x.goto .load)
  | load (hpc : x.pc = .load) : ReaderStep build closed d x (x.goto (.swap x.word))
  | retry (cur : Word) (hpc : x.pc = .swap cur) (hcur : ∀ h, cur ≠ .parked h) :
      ReaderStep build closed d x (x.goto (.swap x.word))
  | consume (hpc : x.pc = .swap .ready) (hword : x.word = .ready) :
      ReaderStep build closed d x x.consume
  | publish (hpc : x.pc = .swap .idle) (hword : x.word = .idle) :
      ReaderStep build closed d x x.publish
  | taken (h : Nat) (hpc : x.pc = .swap (.parked h)) :
      ReaderStep build closed d x (x.goto .asleep)
  | refused (hpc : x.pc = .refused) : ReaderStep build closed d x x.enqueueSelf
  | wake (hpc : x.pc = .asleep) (hqueued : 0 < x.queued) : ReaderStep build closed d x x.wake
  | resumed (pc : Pc) (hpc : x.pc = .resumed) (hnext : pc = .armed ∨ pc = .away) :
      ReaderStep build closed d x (x.goto pc)

/-- Where `EPoller::poll` is with an event: the flags are the directions still to be fired. -/
inductive Poller where
  | idle
  | check (read write : Bool)
  | mark (read write : Bool)
  | fire (read write : Bool)
  | resume (d : Direction) (write : Bool)
  deriving DecidableEq, Repr

/-- Where `processSocketTimeout` is; `ignored` when it returned at once. -/
inductive Callback where
  | waiting
  | claim
  | markBusy
  | epoch
  | unmark
  | disconnect
  | takeRead
  | takeWrite
  | clearBusy
  | removeEvent
  | flag
  | resumeRead
  | resumeWrite
  | finished
  | ignored
  deriving DecidableEq, Repr

structure Socket where
  side : Direction → Side
  busy : Bool
  disconnected : Bool
  closed : Bool
  timeout : Bool
  poller : Poller
  callback : Callback

namespace Socket

def new : Socket := ⟨fun _ => .new, false, false, false, false, .idle, .waiting⟩

def put (s : Socket) (d : Direction) (x : Side) : Socket :=
  { s with side := Function.update s.side d x }

def turnTo (s : Socket) (p : Poller) : Socket := { s with poller := p }

def proceed (s : Socket) (c : Callback) : Socket := { s with callback := c }

/-- `epoll_wait` leaves `left d` edges of each direction behind. -/
def wait (s : Socket) (left : Direction → Nat) (p : Poller) : Socket :=
  { s with side := fun d => { s.side d with edges := left d }, poller := p }

end Socket

open Socket

def bit (read write : Bool) : Direction → Bool
  | .read => read
  | .write => write

inductive PollerStep (build : Build) (s : Socket) : Socket → Prop where
  | wait (read write : Bool) (left : Direction → Nat) (hpc : s.poller = .idle)
      (hopen : s.closed = false) (hle : ∀ d, left d ≤ (s.side d).edges)
      (hall : ∀ d, bit read write d = false → left d = (s.side d).edges ∨ (s.side d).avail = 0) :
      PollerStep build s (s.wait left
        (match build with | .reuseaddr => .fire read write | .shared => .check read write))
  | skip (read write : Bool) (hpc : s.poller = .check read write)
      (hflag : s.busy = true ∨ s.disconnected = true) : PollerStep build s (s.turnTo .idle)
  | check (read write : Bool) (hpc : s.poller = .check read write) (hbusy : s.busy = false)
      (hdisconnected : s.disconnected = false) : PollerStep build s (s.turnTo (.mark read write))
  | mark (read write won : Bool) (hpc : s.poller = .mark read write) :
      PollerStep build s { s.turnTo (.fire read write) with busy := s.busy || won }
  | fireRead (write : Bool) (hpc : s.poller = .fire true write) :
      PollerStep build s ((s.put .read (s.side .read).fire).turnTo (.resume .read write))
  | fireWrite (hpc : s.poller = .fire false true) :
      PollerStep build s ((s.put .write (s.side .write).fire).turnTo (.resume .write false))
  | resume (d : Direction) (write : Bool) (hpc : s.poller = .resume d write) :
      PollerStep build s
        ((s.put d ((s.side d).resumeWaiter .poller)).turnTo (.fire false write))
  | finish (hpc : s.poller = .fire false false) : PollerStep build s (s.turnTo .idle)

/-- The first step of the callback depends on the build: `tflags` are claimed, or the busy
flag is set and the timeout epoch read again. -/
inductive CallbackStep (build : Build) (s : Socket) : Socket → Prop where
  | start (hpc : s.callback = .waiting) :
      CallbackStep build s
        (s.proceed (match build with | .reuseaddr => .claim | .shared => .markBusy))
  | claim (won : Bool) (hpc : s.callback = .claim) :
      CallbackStep build s (s.proceed (if won then .takeRead else .ignored))
  | markBusy (hpc : s.callback = .markBusy) (hbusy : s.busy = false)
      (hdisconnected : s.disconnected = false) :
      CallbackStep build s { s.proceed .epoch with busy := true }
  | markFails (hpc : s.callback = .markBusy) : CallbackStep build s (s.proceed .ignored)
  | epoch (changed : Bool) (hpc : s.callback = .epoch) :
      CallbackStep build s (s.proceed (if changed then .unmark else .disconnect))
  | unmark (hpc : s.callback = .unmark) :
      CallbackStep build s { s.proceed .ignored with busy := false }
  | disconnect (hpc : s.callback = .disconnect) :
      CallbackStep build s { s.proceed .takeRead with disconnected := true }
  | takeRead (hpc : s.callback = .takeRead) :
      CallbackStep build s ((s.put .read (s.side .read).take).proceed .takeWrite)
  | takeWrite (hpc : s.callback = .takeWrite) :
      CallbackStep build s ((s.put .write (s.side .write).take).proceed
        (match build with | .reuseaddr => .removeEvent | .shared => .clearBusy))
  | clearBusy (hpc : s.callback = .clearBusy) :
      CallbackStep build s { s.proceed .removeEvent with busy := false }
  | removeEvent (hpc : s.callback = .removeEvent) :
      CallbackStep build s { s.proceed .flag with closed := true }
  | flag (hpc : s.callback = .flag) :
      CallbackStep build s { s.proceed .resumeRead with timeout := true }
  | resumeRead (hpc : s.callback = .resumeRead) :
      CallbackStep build s
        ((s.put .read ((s.side .read).resumeWaiter .callback)).proceed .resumeWrite)
  | resumeWrite (hpc : s.callback = .resumeWrite) :
      CallbackStep build s
        ((s.put .write ((s.side .write).resumeWaiter .callback)).proceed .finished)
  /- `is_done_client_coroutine_with_timeout()`, in the shared build -/
  | abandonRead (hpc : s.callback = .resumeRead) (hbuild : build = .shared) :
      CallbackStep build s
        ((s.put .read ((s.side .read).abandon .callback)).proceed .resumeWrite)
  | abandonWrite (hpc : s.callback = .resumeWrite) (hbuild : build = .shared) :
      CallbackStep build s
        ((s.put .write ((s.side .write).abandon .callback)).proceed .finished)

inductive Step (build : Build) (s : Socket) : Socket → Prop where
  | reader (d : Direction) (x : Side) (h : ReaderStep build s.closed d (s.side d) x) :
      Step build s
        { s.put d x with
          busy := match (s.side d).pc with | .clearBusy => false | _ => s.busy }
  | arrive (d : Direction) (hopen : s.closed = false) :
      Step build s (s.put d (s.side d).arrive)
  | unpark (d : Direction) (t h : Nat) (hbuild : build = .reuseaddr)
      (hidle : ∀ d, (s.side d).hand (.hook t) = none) :
      Step build s (s.put d ((s.side d).unpark t h))
  | hookResume (d : Direction) (t : Nat) :
      Step build s (s.put d ((s.side d).resumeWaiter (.hook t)))
  | poller (s' : Socket) (h : PollerStep build s s') : Step build s s'
  | callback (s' : Socket) (h : CallbackStep build s s') : Step build s s'

inductive Runs (build : Build) : Socket → Prop where
  | start : Runs build .new
  | step {s s' : Socket} (hs : Runs build s) (h : Step build s s') : Runs build s'

end Uvent.Net.Waiter
