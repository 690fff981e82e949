import Uvent.Lib.LabelledRuns
import Uvent.Net.StateWord

/-!
# The timer of `async_connect`

One TCP socket header, the coroutine that connects it and the timeout callback of its
embedded timer.  In the shared build the callback runs on any worker, with the mutex of the
wheel, and in between the accesses of the coroutine; with `UVENT_ENABLE_REUSEADDR` both are
on the worker that owns the wheel, and the callback runs while the coroutine is suspended.
Other workers copy and drop handles and use the flags of the state word.

The wheel is known here by the one timer of the header.  `taken` and `dropped` count the
references the timer got and gave back.
-/

namespace Uvent.Net.Connecting

open Uvent.Lib Uvent.Net.StateWord

/-- `std::chrono::milliseconds`. -/
abbrev Millis := BitVec 64

structure ArmedTimer where
  id : Nat
  timeoutMs : BitVec 64
  deriving DecidableEq, Repr

/-- `timedOut` is `AdditionalState::TIMEOUT` of `socket_info`. -/
structure Header where
  state : Word
  timerId : Nat
  claimed : Bool
  teardownPending : Bool
  timedOut : Bool
  wheel : Option ArmedTimer
  nextTimerId : Nat
  handles : Nat
  taken : Nat
  dropped : Nat
  destroys : Nat

inductive ConnectError where
  | getAddrInfoFailed
  | socketCreationFailed
  | connectFailed
  | timeout
  | cancelled
  deriving DecidableEq, Repr

/-- Where `async_connect` is; `cancel` has the `timer_id` it has read. -/
inductive Pc where
  | resolving
  | setLoad
  | setUpdate
  | setAddRef
  | setClear
  | setArm
  | connecting
  | parked
  | checkTimeout
  | checkError
  | cancelLoad
  | cancel (id : Nat)
  | clearId
  | dropRef
  | bumpEpoch
  | done (error : Option ConnectError)
  deriving DecidableEq, Repr

/-- Where `processSocketTimeout` is. -/
inductive CallbackPc where
  | idle
  | claim
  | reset (adopted : Bool)
  | loadEpoch
  | markBusy (expected : Nat)
  | checkEpoch (expected : Nat)
  | markDisconnected
  | clearBusy (disconnected : Bool)
  | markTimeout
  | release
  deriving DecidableEq, Repr

/-- The coroutine is at a `co_await`, or has returned. -/
def Pc.suspended : Pc → Bool
  | .resolving | .parked | .done _ => true
  | _ => false

def positive (timeout : Millis) : Bool := decide (0 < timeout.toInt)

/-- `static_cast<timeout_t>(static_cast<int>(connect_timeout.count()))`. -/
def timeoutMs (timeout : Millis) : BitVec 64 := (timeout.setWidth 32).signExtend 64

namespace Header

def armed (s : Header) : Nat := s.wheel.isSome.toNat

/-- `TimerWheel::updateTimer` on the timer of this header. -/
def updateTimer (s : Header) (id : Nat) (timeoutMs : BitVec 64) : Header :=
  { s with wheel := s.wheel.map fun timer => if timer.id = id then { timer with timeoutMs } else timer }

/-- `TimerWheel::cancelTimer`, which says whether there was such a timer. -/
def cancelTimer (s : Header) (id : Nat) : Bool × Header :=
  if s.wheel.any fun timer => timer.id = id then (true, { s with wheel := none }) else (false, s)

def addTimer (s : Header) (timeoutMs : BitVec 64) : Header :=
  { s with
    wheel := some ⟨s.nextTimerId, timeoutMs⟩,
    timerId := s.nextTimerId,
    nextTimerId := s.nextTimerId + 1 }

/-- The end of `set_timeout_ms`; the reuseaddr build goes through
`arm_or_refresh_socket_timer`. -/
def arm (build : Build) (s : Header) (timeoutMs : BitVec 64) : Header :=
  match build with
  | .shared => s.addTimer timeoutMs
  | .reuseaddr => if s.timerId ≠ 0 then s.updateTimer s.timerId timeoutMs else s.addTimer timeoutMs

/-- `RefCounted::release`, which destroys the header with the last reference. -/
def release (s : Header) : Header :=
  { s with
    state := (StateWord.release s.state).2,
    destroys := s.destroys + (StateWord.release s.state).1.toNat }

end Header

/-- One access of `async_connect`.  What the resolver, the system calls and the poller say
is not in the header: those steps may go each way. -/
inductive ConnectStep (build : Build) (timeout : Millis) (s : Header) :
    Pc → Header → Pc → Prop where
  | unresolved : ConnectStep build timeout s .resolving s (.done (some .getAddrInfoFailed))
  | noSocket : ConnectStep build timeout s .resolving s (.done (some .socketCreationFailed))
  | opened : ConnectStep build timeout s .resolving s
      (if positive timeout then .setLoad else .connecting)
  | setLoad : ConnectStep build timeout s .setLoad s
      (if s.timerId ≠ 0 then .setUpdate else .setAddRef)
  | setUpdate : ConnectStep build timeout s .setUpdate
      (s.updateTimer s.timerId (timeoutMs timeout)) .connecting
  | setAddRef : ConnectStep build timeout s .setAddRef
      { s with
        state := (tryAddRef s.state).2,
        taken := s.taken + (tryAddRef s.state).1.toNat }
      (if build = .reuseaddr then .setClear else .setArm)
  | setClear : ConnectStep build timeout s .setClear { s with claimed := false } .setArm
  | setArm : ConnectStep build timeout s .setArm (s.arm build (timeoutMs timeout)) .connecting
  | refused : ConnectStep build timeout s .connecting s (.done (some .connectFailed))
  | parks : ConnectStep build timeout s .connecting s .parked
  | cancelRequested : ConnectStep build timeout s .parked s (.done (some .cancelled))
  | resumed : ConnectStep build timeout s .parked s .checkTimeout
  | checkTimeout : ConnectStep build timeout s .checkTimeout s
      (if s.timedOut then .done (some .timeout) else .checkError)
  | failed (error : ConnectError) (herror : error = .timeout ∨ error = .connectFailed) :
      ConnectStep build timeout s .checkError s (.done (some error))
  | connected : ConnectStep build timeout s .checkError s .cancelLoad
  | cancelLoad : ConnectStep build timeout s .cancelLoad s (.cancel s.timerId)
  | cancel (id : Nat) : ConnectStep build timeout s (.cancel id) (s.cancelTimer id).2 .clearId
  | clearId : ConnectStep build timeout s .clearId { s with timerId := 0 }
      (if positive timeout then .dropRef else .bumpEpoch)
  | dropRef : ConnectStep build timeout s .dropRef
      { s with state := decreaseRef s.state, dropped := s.dropped + 1 } .bumpEpoch
  | bumpEpoch : ConnectStep build timeout s .bumpEpoch
      { s with state := timeoutEpochBump s.state } (.done none)

/-- One access of `processSocketTimeout`.  The `Socket` it makes of the timer's reference
drops it at the end. -/
def callbackExec (build : Build) (s : Header) : CallbackPc → Header × CallbackPc
  | .idle => (s, .idle)
  | .claim => ({ s with claimed := true }, .reset (!s.claimed && !s.teardownPending))
  | .reset adopted =>
      ({ s with timerId := 0 },
        if adopted then
          match build with
          | .shared => .loadEpoch
          | .reuseaddr => .markTimeout
        else .idle)
  | .loadEpoch => (s, .markBusy (epochOf s.state))
  | .markBusy expected =>
      ({ s with state := (tryMarkBusy s.state).2 },
        if (tryMarkBusy s.state).1 then .checkEpoch expected else .release)
  | .checkEpoch expected =>
      (s, if epochOf s.state = expected then .markDisconnected else .clearBusy false)
  | .markDisconnected => ({ s with state := markDisconnected s.state }, .clearBusy true)
  | .clearBusy disconnected =>
      ({ s with state := clearBusy s.state }, if disconnected then .markTimeout else .release)
  | .markTimeout => ({ s with timedOut := true }, .release)
  | .release => ({ s.release with dropped := s.dropped + 1 }, .idle)

structure Connection where
  header : Header
  pc : Pc
  callback : CallbackPc

inductive Actor where
  | connect
  | callback
  | other
  deriving DecidableEq, Repr

/-- The coroutine can go on: with `UVENT_ENABLE_REUSEADDR` the callback is on its worker,
and in the shared build the callback has the mutex that `cancelTimerSync` takes. -/
def Connection.runs (build : Build) (w : Connection) : Prop :=
  w.callback = .idle ∨ (build = .shared ∧ ∀ id, w.pc ≠ .cancel id)

inductive Step (build : Build) (timeout : Millis) (w : Connection) :
    Actor → Connection → Prop where
  | connect {s : Header} {pc : Pc} (hstep : ConnectStep build timeout w.header w.pc s pc)
      (runs : w.runs build) : Step build timeout w .connect ⟨s, pc, w.callback⟩
  | fire {timer : ArmedTimer} (armed : w.header.wheel = some timer) (idle : w.callback = .idle)
      (suspended : build = .reuseaddr → w.pc.suspended = true) :
      Step build timeout w .callback
        ⟨{ w.header with wheel := none }, w.pc,
          if build = .reuseaddr then .claim else .reset true⟩
  | callback (busy : w.callback ≠ .idle) :
      Step build timeout w .callback
        ⟨(callbackExec build w.header w.callback).1, w.pc,
          (callbackExec build w.header w.callback).2⟩
  | copy (room : countOf w.header.state < 2 ^ refcountBits - 1) :
      Step build timeout w .other
        { w with header := { w.header with
            state := addRef w.header.state, handles := w.header.handles + 1 } }
  | drop (more : 1 < w.header.handles) :
      Step build timeout w .other
        { w with header := { w.header with handles := w.header.handles - 1 }.release }
  | flags (word : Word) (same : countOf word = countOf w.header.state) :
      Step build timeout w .other { w with header := { w.header with state := word } }

/-- The header before the call: its count is that of the handles and of the timer, which an
earlier `set_timeout_ms` may have armed. -/
structure Prior (build : Build) (s : Header) : Prop where
  count : countOf s.state = s.handles + s.armed
  ledger : s.taken = s.dropped + s.armed
  live : 0 < s.handles
  named : ∀ timer, s.wheel = some timer → timer.id = s.timerId ∧ s.timerId ≠ 0
  fresh : 0 < s.nextTimerId
  unclaimed : build = .shared ∨ s.wheel.isSome = true → s.claimed = false
  upright : s.teardownPending = false

abbrev Runs (build : Build) (timeout : Millis) (ok : Connection → Actor → Prop) :
    Connection → Prop :=
  LabelledRuns (fun w => ∃ s, Prior build s ∧ w = ⟨s, .resolving, .idle⟩) (Step build timeout) ok

/-- The count is that of the handles and of the timer, and each reference the timer got and
has no more was dropped once. -/
structure Balanced (s : Header) : Prop where
  count : countOf s.state = s.handles + s.armed
  ledger : s.taken = s.dropped + s.armed

/-- The condition under which `async_connect` keeps the count: `set_timeout_ms` gets the
reference it arms the timer with, and the timeout is positive exactly if there is a timer
when the call cancels it. -/
def Matched (timeout : Millis) (w : Connection) (a : Actor) : Prop :=
  a = .connect →
    match w.pc with
    | .setAddRef =>
        isClosed w.header.state = false ∧ countOf w.header.state < 2 ^ refcountBits - 1
    | .cancel _ => positive timeout = w.header.wheel.isSome
    | _ => True

end Uvent.Net.Connecting
