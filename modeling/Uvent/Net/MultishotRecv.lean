import Uvent.Lib.LabelledRuns
import Mathlib.Algebra.Group.Nat.Defs
import Uvent.Net.MultishotOp

/-!
# Reading from an io_uring socket

`async_read` in both forms, the completions of the ring and the handles of one socket, on the
worker that owns it.  What runs between two suspensions or handles one completion is one step.

The kernel side is a stream of bytes: a direct `recv` and a completion of the multishot receive
take what comes next.  The bytes of a completion are in the buffer it names as soon as the
kernel has taken them, before the completion is handled.  The buffers are shared with the
other sockets of the worker.
-/

namespace Uvent.Net.Uring

open Uvent.Lib

/-- A completion for the multishot receive; `more` is `IORING_CQE_F_MORE`. -/
inductive Cqe where
  | data (s : Seg) (more : Bool)
  | terminal (res : Int) (more : Bool)
  deriving DecidableEq, Repr

def Cqe.more : Cqe → Bool
  | .data _ more | .terminal _ more => more

/-- `MultishotRecvOp`; `header` says whether the back pointer of `IoOpBase` is set. -/
structure MultishotRecvOp where
  segs : SegQueue
  armed : Bool
  waiting : Bool
  hasTerminal : Bool
  terminal : Int
  header : Bool

def pushCqe (op : MultishotRecvOp) : Cqe → MultishotRecvOp
  | .data s _ => { op with segs := op.segs.push s }
  | .terminal res _ => { op with hasTerminal := true, terminal := res }

/-- The reader: at the beginning of a call, at the top of the loop, at the awaiter of the
multishot receive or suspended in it, scheduled, or in the awaiter of a plain receive. -/
inductive Reader (α : Type) where
  | idle
  | start (dynamic : Bool) (n : Nat)
  | loop (n : Nat)
  | await (n : Nat)
  | suspended (n : Nat)
  | resumed (n : Nat)
  | recv (n : Nat)
  | received (bytes : List α)

def countMask : Nat := 2 ^ 40 - 1

def enobufs : Int := 105

/-- `base` are the contents of the buffers, `bufs` those that the kernel may fill and `lent`
those of other sockets.  `kernel` says that the multishot receive is armed in the kernel, and
`submitted` that a plain one is.  `count` is the COUNT field of the state word.  Only looked at
are the whole `stream`, the bytes `delivered` by the calls, and how often a completion
disarmed the receive. -/
structure State (α : Type) where
  base : Nat → List α
  bufs : List Nat
  lent : List Nat
  op : MultishotRecvOp
  kernel : Bool
  submitted : Bool
  cqes : List Cqe
  source : List α
  reader : Reader α
  count : Nat
  closed : Bool
  timer : Bool
  fdOpen : Bool
  firstReadDone : Bool
  handles : Nat
  destroyed : Bool
  stream : List α
  delivered : List α
  disarms : Nat

variable {α : Type}

namespace State

def new (bufs : List Nat) (fdOpen : Bool) : State α where
  base := fun _ => []
  bufs := bufs
  lent := []
  op := ⟨.new, false, false, false, 0, false⟩
  kernel := false
  submitted := false
  cqes := []
  source := []
  reader := .idle
  count := 1
  closed := false
  timer := false
  fdOpen := fdOpen
  firstReadDone := false
  handles := 1
  destroyed := false
  stream := []
  delivered := []
  disarms := 0

/-! ### References -/

/-- `add_ref_for_ms_recv`, and what `set_timeout_ms` does the same way. -/
def addRefForMsRecv (s : State α) : State α :=
  if s.closed then s
  else if s.count = countMask then s
  else { s with count := s.count + 1 }

def addRef (s : State α) : State α := { s with count := (s.count + 1) % (countMask + 1) }

/-- `Socket::destroy`: the segments that wait are recycled. -/
def destroy (s : State α) : State α :=
  { s with
    timer := false,
    closed := true,
    bufs := s.bufs ++ s.op.segs.toList.map Seg.bid,
    op := { s.op with segs := (SegQueue.popFront)^[s.op.segs.toList.length] s.op.segs },
    fdOpen := false,
    destroyed := true }

def release (s : State α) : State α :=
  let s' := { s with count := if s.count = 0 then countMask else s.count - 1 }
  if s.count = 1 then s'.destroy else s'

/-! ### Reading -/

def recvDirect (s : State α) (n : Nat) : State α :=
  { s with
    source := s.source.drop n,
    delivered := s.delivered ++ s.source.take n,
    firstReadDone := true,
    reader := .idle }

def consume (s : State α) (n : Nat) : State α :=
  let r := consumeMsRecv s.base n s.op.segs
  { s with
    delivered := s.delivered ++ r.1,
    op := { s.op with segs := r.2.1 },
    bufs := s.bufs ++ r.2.2,
    reader := .idle }

/-- A pass of the loop that found no data and no terminal result but `-ENOBUFS`. -/
def clearTerminal (s : State α) (n : Nat) : State α :=
  { s with
    op := { s.op with hasTerminal := false, terminal := if s.op.hasTerminal then 0 else s.op.terminal },
    reader := .await n }

/-- `submit_recv_multishot`, which may find no entry in the submission queue. -/
def submitRecvMultishot (s : State α) (sqe : Bool) : State α :=
  if s.fdOpen && sqe then { s with op := { s.op with armed := true }, kernel := true } else s

def suspend (s : State α) (n : Nat) : State α :=
  { s with op := { s.op with waiting := true }, reader := .suspended n }

def arm (s : State α) (sqe : Bool) (n : Nat) : State α :=
  let s' := s.submitRecvMultishot sqe
  (if s'.op.armed then s'.addRefForMsRecv else s').suspend n

def submitRecv (s : State α) (sqe : Bool) (n : Nat) : State α :=
  { s with firstReadDone := true, submitted := s.fdOpen && sqe, reader := .recv n }

/-! ### Completions -/

def wake (s : State α) : State α :=
  if s.op.waiting then
    { s with
      op := { s.op with waiting := false },
      reader := match s.reader with
        | .suspended n => .resumed n
        | reader => reader }
  else s

/-- `handle_cqe` for a completion of the multishot receive. -/
def handleCqe (s : State α) (c : Cqe) : State α :=
  let op := pushCqe s.op c
  let s' := { s with op := { op with armed := op.armed && c.more } }.wake
  if s.op.armed && !c.more then
    let s'' := { s' with disarms := s'.disarms + 1 }
    if s''.op.header then s''.release else s''
  else s'

def fill (s : State α) (b n : Nat) (more : Bool) : State α :=
  { s with
    base := Function.update s.base b (s.source.take n),
    bufs := s.bufs.tail,
    source := s.source.drop n,
    cqes := s.cqes ++ [.data ⟨n, 0, b⟩ more],
    kernel := more }

end State

/-- A direct receive that takes `n` bytes, the suspension of a reader that finds the receive
not armed, a copy of a handle, the setting of a timeout, or any other step. -/
inductive Event where
  | recv (n : Nat)
  | arm (sqe : Bool)
  | copy
  | setTimeout
  | other
  deriving DecidableEq, Repr

/-- `bufRing` is `has_buf_ring()`. -/
inductive Step (bufRing : Bool) (s : State α) : Event → State α → Prop where
  | arrive (bytes : List α) :
      Step bufRing s .other { s with source := s.source ++ bytes, stream := s.stream ++ bytes }
  | call (dynamic : Bool) (n : Nat) (handle : 0 < s.handles) (positive : 0 < n)
      (idle : s.reader matches .idle) : Step bufRing s .other { s with reader := .start dynamic n }
  -- `async_read` with a ring of buffers
  | recvFirst (n k : Nat) (ring : bufRing = true) (reader : s.reader = .start true n)
      (first : s.firstReadDone = false) (some : 0 < k) (fits : k ≤ n) (there : k ≤ s.source.length) :
      Step bufRing s (.recv k) (s.recvDirect k)
  | recvFirstEnd (n : Nat) (ring : bufRing = true) (reader : s.reader = .start true n)
      (first : s.firstReadDone = false) :
      Step bufRing s .other { s with firstReadDone := true, reader := .idle }
  | recvFirstAgain (n : Nat) (ring : bufRing = true) (reader : s.reader = .start true n)
      (first : s.firstReadDone = false) :
      Step bufRing s .other { s with firstReadDone := true, reader := .loop n }
  | enter (dynamic : Bool) (n : Nat) (ring : bufRing = true) (reader : s.reader = .start dynamic n)
      (through : dynamic = true → s.firstReadDone = true) :
      Step bufRing s .other { s with reader := .loop n }
  | loopData (n : Nat) (reader : s.reader = .loop n) (data : s.op.segs.hasData = true) :
      Step bufRing s .other (s.consume n)
  | loopTerminal (n : Nat) (reader : s.reader = .loop n) (none : s.op.segs.hasData = false)
      (terminal : s.op.hasTerminal = true) (final : s.op.terminal ≠ -enobufs) :
      Step bufRing s .other { s with reader := .idle }
  | loopAwait (n : Nat) (reader : s.reader = .loop n) (none : s.op.segs.hasData = false)
      (passing : s.op.hasTerminal = true → s.op.terminal = -enobufs) :
      Step bufRing s .other (s.clearTerminal n)
  | awaitReady (n : Nat) (reader : s.reader = .await n)
      (ready : (s.op.segs.hasData || s.op.hasTerminal) = true) :
      Step bufRing s .other { s with reader := .loop n }
  | awaitArmed (n : Nat) (reader : s.reader = .await n)
      (unready : (s.op.segs.hasData || s.op.hasTerminal) = false) (armed : s.op.armed = true) :
      Step bufRing s .other (s.suspend n)
  | awaitArm (n : Nat) (sqe : Bool) (reader : s.reader = .await n)
      (unready : (s.op.segs.hasData || s.op.hasTerminal) = false) (unarmed : s.op.armed = false) :
      Step bufRing s (.arm sqe) (s.arm sqe n)
  | resume (n : Nat) (reader : s.reader = .resumed n) :
      Step bufRing s .other
        { s with op := { s.op with waiting := false }, reader := .loop n }
  -- the kernel and the completions
  | fill (b k : Nat) (rest : List Nat) (more : Bool) (armed : s.kernel = true)
      (buffer : s.bufs = b :: rest) (some : 0 < k) (there : k ≤ s.source.length) :
      Step bufRing s .other (s.fill b k more)
  | terminate (res : Int) (more : Bool) (armed : s.kernel = true) :
      Step bufRing s .other { s with cqes := s.cqes ++ [.terminal res more], kernel := more }
  | handleCqe (c : Cqe) (rest : List Cqe) (next : s.cqes = c :: rest) :
      Step bufRing s .other ({ s with cqes := rest }.handleCqe c)
  | lend (b : Nat) (rest : List Nat) (bytes : List α) (buffer : s.bufs = b :: rest) :
      Step bufRing s .other
        { s with
          base := Function.update s.base b bytes, bufs := rest, lent := b :: s.lent }
  | giveBack (b : Nat) (lent : b ∈ s.lent) :
      Step bufRing s .other { s with bufs := s.bufs ++ [b], lent := s.lent.erase b }
  -- `async_read` without a ring of buffers
  | plainFirst (dynamic : Bool) (n k : Nat) (ring : bufRing = false)
      (reader : s.reader = .start dynamic n) (first : s.firstReadDone = false) (fits : k ≤ n)
      (there : k ≤ s.source.length) : Step bufRing s (.recv k) (s.recvDirect k)
  | plainFirstEnd (dynamic : Bool) (n : Nat) (ring : bufRing = false)
      (reader : s.reader = .start dynamic n) (first : s.firstReadDone = false) :
      Step bufRing s .other { s with firstReadDone := true, reader := .idle }
  | plainSubmit (dynamic sqe : Bool) (n : Nat) (ring : bufRing = false)
      (reader : s.reader = .start dynamic n) : Step bufRing s .other (s.submitRecv sqe n)
  | plainTake (n k : Nat) (reader : s.reader = .recv n) (submitted : s.submitted = true)
      (fits : k ≤ n) (there : k ≤ s.source.length) :
      Step bufRing s .other
        { s with
          source := s.source.drop k, submitted := false, reader := .received (s.source.take k) }
  | plainReturn (bytes : List α) (reader : s.reader = .received bytes) :
      Step bufRing s .other { s with delivered := s.delivered ++ bytes, reader := .idle }
  -- handles and the timer
  | copy (handle : 0 < s.handles) :
      Step bufRing s .copy { s.addRef with handles := s.handles + 1 }
  | drop (handle : 0 < s.handles) (idle : s.reader matches .idle ∨ 1 < s.handles) :
      Step bufRing s .other { s with handles := s.handles - 1 }.release
  | setTimeout (handle : 0 < s.handles) (unset : s.timer = false) :
      Step bufRing s .setTimeout { s.addRefForMsRecv with timer := true }
  | timeout (set : s.timer = true) : Step bufRing s .other { s with timer := false }.release
  | shutdown (handle : 0 < s.handles) (set : s.timer = true) :
      Step bufRing s .other { s with timer := false }.release
  | remove (handle : 0 < s.handles) : Step bufRing s .other { s with closed := true }

abbrev Runs (bufRing : Bool) (ok : State α → Event → Prop) : State α → Prop :=
  LabelledRuns (fun s => ∃ bufs fdOpen, bufs.Nodup ∧ s = .new bufs fdOpen)
    (fun s e s' => s.destroyed = false ∧ Step bufRing s e s') ok

def Cqe.seg : Cqe → List Seg
  | .data s _ => [s]
  | .terminal .. => []

def cqeSegs (cqes : List Cqe) : List Seg := cqes.flatMap Cqe.seg

def State.undelivered (s : State α) : List α :=
  segBytes s.base (s.op.segs.toList ++ cqeSegs s.cqes)

/-- A direct receive takes bytes when the multishot receive has none that are not delivered. -/
def Ordered (s : State α) : Event → Prop
  | .recv _ => s.undelivered = []
  | _ => True

end Uvent.Net.Uring
