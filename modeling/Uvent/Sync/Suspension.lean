import Uvent.Sync.WaitList

/-!
# Suspensions

The awaiters `OpWait`, `SelectSuspend` and `MultiRecvWait`, with the coroutines that
suspend in them, the wakers of the wait lists, the timers of the `SleepOp`s and
cancellation.  What the operations do outside of the wait lists is left open: a coroutine
begins to wait when it likes, the check of an `attach` answers as it likes, and a list is
woken when somebody likes.

A section under the lock of a wait list is one step, and so is every access to a word that
another thread reads or writes.  `MultiRecvWait` is `SelectSuspend` over the channels that
are active.  Every `await_suspend` of a coroutine has a number, and its nodes carry it.
-/

namespace Uvent.Sync.Suspension

/-- What one operation of a `select` waits on: a wait list, or the timer of a
`SleepOp`. -/
inductive Place (Λ : Type) where
  | listed (l : Λ)
  | sleep
  deriving DecidableEq, Repr

inductive Wait (Λ : Type) where
  | op (l : Λ)
  | select (ops : List (Place Λ))
  deriving DecidableEq, Repr

def Wait.places {Λ : Type} : Wait Λ → List (Place Λ)
  | .op l => [.listed l]
  | .select ops => ops

/-- A node of coroutine `coro`, for the operation `index` of its suspension `turn`. -/
structure Node where
  coro : Nat
  index : Nat
  turn : Nat
  deriving DecidableEq, Repr

/-- Why a `select` detaches its nodes: an `attach` found its operation ready, cancellation
was claimed, the coroutine was resumed, or `await_suspend` has returned false. -/
inductive Why where
  | undo
  | giveUp
  | resume
  | again
  deriving DecidableEq, Repr

/-- The accesses of `SleepOp::detach`. -/
inductive Part where
  | exchange
  | loadFired
  | spin
  deriving DecidableEq, Repr

/-- Where a coroutine is.  `withdraw` is what `await_suspend` does when it finds
cancellation requested behind `arm_cancel`, and `resumed` is `OpWait::await_resume`. -/
inductive Phase (Λ : Type) where
  | running
  | check (w : Wait Λ)
  | attach (w : Wait Λ) (k : Nat)
  | startTimer (w : Wait Λ) (k : Nat)
  | look (w : Wait Λ) (k : Nat)
  | undo (l : Λ)
  | arm (w : Wait Λ)
  | withdraw (w : Wait Λ)
  | detach (ops : List (Place Λ)) (why : Why) (k : Nat) (part : Part)
  | readWinner (ops : List (Place Λ))
  | suspended (w : Wait Λ)
  | resumed (l : Λ)
  deriving DecidableEq, Repr

/-- The word of the winner: `own` of an `OpWait`, `winner` of a `select`. -/
inductive Winner where
  | none
  | index (k : Nat)
  | cancelled
  deriving DecidableEq, Repr

/-- `on_cancel` behind its `detach` or its claim. -/
inductive HookPc where
  | idle
  | store
  | enqueue
  deriving DecidableEq, Repr

/-- The timer of a `SleepOp`, and where `on_fire` is. -/
inductive TimerPc where
  | off
  | armed
  | exchange
  | claim (turn : Nat)
  | enqueue (turn : Nat)
  | last
  | ended
  deriving DecidableEq, Repr

/-- What `fired` holds. -/
def TimerPc.fired : TimerPc → Bool
  | .off | .armed => false
  | _ => true

/-- What `fire_done` holds. -/
def TimerPc.fireDone : TimerPc → Bool
  | .ended => true
  | _ => false

/-- `waiter` is the suspension whose node it points to. -/
structure Sleeper where
  timer : TimerPc
  waiter : Option Nat
  deriving DecidableEq, Repr

/-- `queued` counts the entries of the handle in the run queues, and `answer` is what the
last `co_await` gave.  `early` is set when another worker resumes the coroutine while its
`await_suspend` still has a step to do.  The last two fields are not of the program: what
every `await_suspend` returned, and how often the handle was put into a run queue for it. -/
structure Coro (Λ : Type) where
  phase : Phase Λ
  turn : Nat
  requested : Bool
  hook : Option (Wait Λ)
  hookPc : HookPc
  winner : Winner
  answer : Bool
  queued : Nat
  early : Bool
  sleepers : Nat → Sleeper
  verdict : Nat → Option Bool
  wakes : Nat → Nat

def Coro.new {Λ : Type} : Coro Λ where
  phase := .running
  turn := 0
  requested := false
  hook := none
  hookPc := .idle
  winner := .none
  answer := true
  queued := 0
  early := false
  sleepers := fun _ => ⟨.off, none⟩
  verdict := fun _ => none
  wakes := fun _ => 0

structure State (Λ : Type) where
  lists : Λ → WaitList Node
  coros : Nat → Coro Λ

def State.new {Λ : Type} : State Λ := ⟨fun _ => [], fun _ => .new⟩

section Operations

variable {Λ : Type} [DecidableEq Λ]

namespace Coro

def returns (c : Coro Λ) (b : Bool) : Coro Λ :=
  { c with verdict := Function.update c.verdict c.turn (some b) }

def enqueue (c : Coro Λ) (n : Nat) : Coro Λ :=
  { c with queued := c.queued + 1, wakes := Function.update c.wakes n (c.wakes n + 1) }

def setSleeper (c : Coro Λ) (k : Nat) (sleeper : Sleeper) : Coro Λ :=
  { c with sleepers := Function.update c.sleepers k sleeper }

def setTimer (c : Coro Λ) (k : Nat) (timer : TimerPc) : Coro Λ :=
  c.setSleeper k { c.sleepers k with timer := timer }

def setWaiter (c : Coro Λ) (k : Nat) (waiter : Option Nat) : Coro Λ :=
  c.setSleeper k { c.sleepers k with waiter := waiter }

/-- `await_suspend` returns false because of cancellation, and `await_resume` answers
false at once. -/
def ownCancel (c : Coro Λ) : Coro Λ := { c.returns false with phase := .running, answer := false }

def suspend (c : Coro Λ) (w : Wait Λ) : Coro Λ := { c.returns true with phase := .suspended w }

/-- The end of `await_resume`. -/
def finish (c : Coro Λ) : Coro Λ :=
  { c with phase := .running, answer := decide (c.winner ≠ .cancelled) }

/-- `begin` of a suspension; the word of the winner is set to `-1`. -/
def start (c : Coro Λ) (w : Wait Λ) : Coro Λ :=
  { c with phase := .check w, turn := c.turn + 1, winner := .none }

end Coro

namespace State

def set (s : State Λ) (t : Nat) (c : Coro Λ) : State Λ :=
  { s with coros := Function.update s.coros t c }

def setList (s : State Λ) (l : Λ) (nodes : WaitList Node) : State Λ :=
  { s with lists := Function.update s.lists l nodes }

def node (s : State Λ) (t k : Nat) : Node := ⟨t, k, (s.coros t).turn⟩

def push (s : State Λ) (t k : Nat) (l : Λ) : State Λ :=
  s.setList l ((s.lists l).pushLocked (s.node t k))

/-- `WaitList::remove`; the answer says whether the node was in the list. -/
def remove (s : State Λ) (t k : Nat) (l : Λ) : Bool × State Λ :=
  let (b, nodes) := (s.lists l).removeLocked (s.node t k)
  (b, s.setList l nodes)

def fire (s : State Λ) (n : Node) : Bool × State Λ :=
  let c := s.coros n.coro
  match c.winner with
  | .none => (true, s.set n.coro { c.enqueue n.turn with winner := .index n.index })
  | _ => (false, s)

def popFire (s : State Λ) (l : Λ) : Bool × State Λ :=
  match (s.lists l).popFrontLocked with
  | (none, _) => (false, s)
  | (some n, nodes) => (s.setList l nodes).fire n

/-- The loop of a waker under the lock of the list, until `count` waiters have been
resumed or the list is empty. -/
def wakeLoop (l : Λ) : Nat → Nat → State Λ → State Λ
  | 0, _, s => s
  | _ + 1, 0, s => s
  | fuel + 1, count + 1, s =>
      match s.popFire l with
      | (true, s') => wakeLoop l fuel count s'
      | (false, s') => wakeLoop l fuel (count + 1) s'

/-- `wake_one_waiter` with one, `release(k)` with `k`, `wake_all_waiters` with as many as
there are. -/
def wake (s : State Λ) (l : Λ) (count : Nat) : State Λ := wakeLoop l (s.lists l).length count s

end State

def Wait.attachFrom (w : Wait Λ) (k : Nat) : Phase Λ :=
  if k < w.places.length then .attach w k else .arm w

def Wait.undo : Wait Λ → Phase Λ
  | .op l => .undo l
  | .select ops => .detach ops .undo 0 .exchange

/-- `await_resume` of a coroutine that was resumed. -/
def Wait.resume : Wait Λ → Phase Λ
  | .op l => .resumed l
  | .select ops => .detach ops .resume 0 .exchange

namespace State

def attach (s : State Λ) (t : Nat) (w : Wait Λ) (k : Nat) : State Λ :=
  let c := s.coros t
  match w.places[k]? with
  | none => s.set t { c with phase := .arm w }
  | some (.listed l) => (s.push t k l).set t { c with phase := .look w k }
  | some .sleep => s.set t { c.setWaiter k (some c.turn) with phase := .startTimer w k }

/-- `SleepOp::attach` arms the timer unless it has one. -/
def startTimer (s : State Λ) (t : Nat) (w : Wait Λ) (k : Nat) : State Λ :=
  let c := s.coros t
  let timer := if (c.sleepers k).timer = .off then .armed else (c.sleepers k).timer
  s.set t { c.setTimer k timer with phase := .look w k }

/-- The check of `attach` says whether there is something to wait for. -/
def look (s : State Λ) (t : Nat) (w : Wait Λ) (k : Nat) (wait : Bool) : State Λ :=
  s.set t { s.coros t with phase := if wait then w.attachFrom (k + 1) else w.undo }

def undo (s : State Λ) (t : Nat) (l : Λ) : State Λ :=
  match s.remove t 0 l with
  | (true, s') => s'.set t { (s.coros t).returns false with phase := .resumed l }
  | (false, s') => s'.set t ((s.coros t).suspend (.op l))

def arm (s : State Λ) (t : Nat) (w : Wait Λ) : State Λ :=
  let c := { s.coros t with hook := some w }
  s.set t (if c.requested then { c with phase := .withdraw w } else c.suspend w)

def withdraw (s : State Λ) (t : Nat) (w : Wait Λ) : State Λ :=
  let c := s.coros t
  match w with
  | .op l =>
      match s.remove t 0 l with
      | (true, s') => s'.set t { c.ownCancel with hook := none }
      | (false, s') => s'.set t (c.suspend w)
  | .select ops =>
      if c.winner = .none then
        s.set t { c with
          winner := .cancelled, hook := none, phase := .detach ops .giveUp 0 .exchange }
      else s.set t (c.suspend w)

def detached (s : State Λ) (t : Nat) (ops : List (Place Λ)) (why : Why) : State Λ :=
  let c := s.coros t
  match why with
  | .undo => s.set t { c with phase := .readWinner ops }
  | .giveUp => s.set t c.ownCancel
  | .resume | .again => s.set t c.finish

def detach (s : State Λ) (t : Nat) (ops : List (Place Λ)) (why : Why) (k : Nat) (part : Part) :
    State Λ :=
  let c := s.coros t
  let next : Phase Λ := .detach ops why (k + 1) .exchange
  match ops[k]? with
  | none => s.detached t ops why
  | some (.listed l) => (s.remove t k l).2.set t { c with phase := next }
  | some .sleep =>
      match part with
      | .exchange =>
          s.set t { c.setWaiter k none with
            phase := if (c.sleepers k).waiter.isSome then next else .detach ops why k .loadFired }
      | .loadFired =>
          s.set t { c with
            phase := if (c.sleepers k).timer.fired then .detach ops why k .spin else next }
      | .spin => if (c.sleepers k).timer.fireDone then s.set t { c with phase := next } else s

def readWinner (s : State Λ) (t : Nat) (ops : List (Place Λ)) : State Λ :=
  let c := s.coros t
  if c.winner = .none then s.set t { c.returns false with phase := .detach ops .again 0 .exchange }
  else s.set t (c.suspend (.select ops))

def resumed (s : State Λ) (t : Nat) (l : Λ) : State Λ :=
  (s.remove t 0 l).2.set t (s.coros t).finish

/-- `run_cancel_hook` and the first access of `on_cancel`. -/
def onCancel (s : State Λ) (t : Nat) (w : Wait Λ) : State Λ :=
  let c := { s.coros t with hook := none }
  match w with
  | .op l =>
      match s.remove t 0 l with
      | (true, s') => s'.set t { c with hookPc := .store }
      | (false, s') => s'.set t c
  | .select _ =>
      if c.winner = .none then s.set t { c with winner := .cancelled, hookPc := .enqueue }
      else s.set t c

/-- The accesses of `SleepOp::on_fire`, from the store of `fired`. -/
def onFire (s : State Λ) (t k : Nat) : State Λ :=
  let c := s.coros t
  match (c.sleepers k).timer with
  | .off | .ended => s
  | .armed => s.set t (c.setTimer k .exchange)
  | .exchange =>
      match (c.sleepers k).waiter with
      | none => s.set t (c.setTimer k .last)
      | some n => s.set t (c.setSleeper k ⟨.claim n, none⟩)
  | .claim n =>
      if c.winner = .none then s.set t { c.setTimer k (.enqueue n) with winner := .index k }
      else s.set t (c.setTimer k .last)
  | .enqueue n => s.set t ((c.setTimer k .last).enqueue n)
  | .last => s.set t (c.setTimer k .ended)

theorem wakeLoop_succ (l : Λ) (fuel count : Nat) (s : State Λ) :
    wakeLoop l (fuel + 1) (count + 1) s =
      wakeLoop l fuel (if (s.popFire l).1 then count else count + 1) (s.popFire l).2 := by
  rw [wakeLoop]
  obtain ⟨_ | _, s'⟩ := s.popFire l <;> rfl

section Equations

variable {s : State Λ} {t k : Nat} {l : Λ} {w : Wait Λ} {ops : List (Place Λ)} {why : Why}
  {part : Part}

theorem attach_none (h : w.places[k]? = none) :
    s.attach t w k = s.set t { s.coros t with phase := .arm w } := by
  simp only [attach, h]

theorem attach_listed (h : w.places[k]? = some (.listed l)) :
    s.attach t w k = (s.push t k l).set t { s.coros t with phase := .look w k } := by
  simp only [attach, h]

theorem attach_sleep (h : w.places[k]? = some .sleep) :
    s.attach t w k = s.set t
      { (s.coros t).setWaiter k (some (s.coros t).turn) with phase := .startTimer w k } := by
  simp only [attach, h]

theorem detach_none (h : ops[k]? = none) : s.detach t ops why k part = s.detached t ops why := by
  simp only [detach, h]

theorem detach_listed (h : ops[k]? = some (.listed l)) :
    s.detach t ops why k part = (s.remove t k l).2.set t
      { s.coros t with phase := .detach ops why (k + 1) .exchange } := by
  simp only [detach, h]

/-- `SleepOp::detach` changes its own timer, or waits for `on_fire`. -/
theorem detach_sleep (s : State Λ) (t : Nat) (why : Why) (part : Part)
    (h : ops[k]? = some .sleep) :
    s.detach t ops why k part = s ∨ ∃ c' k' part', s.detach t ops why k part = s.set t c' ∧
      c'.turn = (s.coros t).turn ∧ c'.winner = (s.coros t).winner ∧
      c'.phase = .detach ops why k' part' := by
  simp only [detach, h]
  cases part with
  | exchange =>
      refine .inr ⟨_, if ((s.coros t).sleepers k).waiter.isSome then k + 1 else k,
        if ((s.coros t).sleepers k).waiter.isSome then .exchange else .loadFired, rfl, rfl, rfl, ?_⟩
      dsimp only
      split <;> rfl
  | loadFired =>
      refine .inr ⟨_, if ((s.coros t).sleepers k).timer.fired then k else k + 1,
        if ((s.coros t).sleepers k).timer.fired then .spin else .exchange, rfl, rfl, rfl, ?_⟩
      dsimp only
      split <;> rfl
  | spin =>
      dsimp only
      split
      · exact .inr ⟨_, k + 1, .exchange, rfl, rfl, rfl, rfl⟩
      · exact .inl rfl

end Equations

theorem undo_eq (s : State Λ) (t : Nat) (l : Λ) :
    s.undo t l = (s.remove t 0 l).2.set t
      (if (s.remove t 0 l).1 then { (s.coros t).returns false with phase := .resumed l }
        else (s.coros t).suspend (.op l)) := by
  rw [undo]
  obtain ⟨_ | _, s'⟩ := s.remove t 0 l <;> rfl

theorem withdraw_op (s : State Λ) (t : Nat) (l : Λ) :
    s.withdraw t (.op l) = (s.remove t 0 l).2.set t
      (if (s.remove t 0 l).1 then { (s.coros t).ownCancel with hook := none }
        else (s.coros t).suspend (.op l)) := by
  rw [withdraw]
  obtain ⟨_ | _, s'⟩ := s.remove t 0 l <;> rfl

theorem withdraw_select (s : State Λ) (t : Nat) (ops : List (Place Λ)) :
    s.withdraw t (.select ops) = s.set t (if (s.coros t).winner = .none then
        { s.coros t with winner := .cancelled, hook := none, phase := .detach ops .giveUp 0 .exchange }
      else (s.coros t).suspend (.select ops)) := by
  rw [withdraw]
  split
  · rfl
  · rfl

omit [DecidableEq Λ] in
theorem readWinner_eq (s : State Λ) (t : Nat) (ops : List (Place Λ)) :
    s.readWinner t ops = s.set t (if (s.coros t).winner = .none then
        { (s.coros t).returns false with phase := .detach ops .again 0 .exchange }
      else (s.coros t).suspend (.select ops)) := by
  rw [readWinner]
  split
  · rfl
  · rfl

theorem onCancel_select (s : State Λ) (t : Nat) (ops : List (Place Λ)) :
    s.onCancel t (.select ops) = s.set t (if (s.coros t).winner = .none then
        { s.coros t with hook := none, winner := .cancelled, hookPc := .enqueue }
      else { s.coros t with hook := none }) := by
  rw [onCancel]
  split
  · rfl
  · rfl

theorem onCancel_op (s : State Λ) (t : Nat) (l : Λ) :
    s.onCancel t (.op l) = (s.remove t 0 l).2.set t
      (if (s.remove t 0 l).1 then { s.coros t with hook := none, hookPc := .store }
        else { s.coros t with hook := none }) := by
  rw [onCancel]
  obtain ⟨_ | _, s'⟩ := s.remove t 0 l <;> rfl

end State

/-- `await_suspend` has a step left that accesses the frame or the awaiter. -/
def Phase.suspending : Phase Λ → Bool
  | .attach .. | .startTimer .. | .look .. | .undo .. | .arm .. | .withdraw .. | .readWinner ..
  | .detach _ .undo .. | .detach _ .giveUp .. => true
  | _ => false

/-- A step; `reuseAddr` is the build.  With it a woken coroutine goes back to the worker
that parked it, which resumes it when `await_suspend` has returned; without it there are no
cancel kicks. -/
inductive Step (reuseAddr : Bool) (s : State Λ) : State Λ → Prop where
  | request (t : Nat) : Step reuseAddr s (s.set t { s.coros t with requested := true })
  | start (t : Nat) (w : Wait Λ) (h : (s.coros t).phase = .running) :
      Step reuseAddr s (s.set t ((s.coros t).start w))
  | check (t : Nat) (w : Wait Λ) (h : (s.coros t).phase = .check w) :
      Step reuseAddr s (s.set t (if (s.coros t).requested then (s.coros t).ownCancel
        else { s.coros t with phase := w.attachFrom 0 }))
  | attach (t : Nat) (w : Wait Λ) (k : Nat) (h : (s.coros t).phase = .attach w k) :
      Step reuseAddr s (s.attach t w k)
  | startTimer (t : Nat) (w : Wait Λ) (k : Nat) (h : (s.coros t).phase = .startTimer w k) :
      Step reuseAddr s (s.startTimer t w k)
  | look (t : Nat) (w : Wait Λ) (k : Nat) (wait : Bool) (h : (s.coros t).phase = .look w k)
      (hsleep : w.places[k]? = some .sleep → wait = !((s.coros t).sleepers k).timer.fired) :
      Step reuseAddr s (s.look t w k wait)
  | undo (t : Nat) (l : Λ) (h : (s.coros t).phase = .undo l) : Step reuseAddr s (s.undo t l)
  | arm (t : Nat) (w : Wait Λ) (h : (s.coros t).phase = .arm w) : Step reuseAddr s (s.arm t w)
  | withdraw (t : Nat) (w : Wait Λ) (h : (s.coros t).phase = .withdraw w) :
      Step reuseAddr s (s.withdraw t w)
  | detach (t : Nat) (ops : List (Place Λ)) (why : Why) (k : Nat) (part : Part)
      (h : (s.coros t).phase = .detach ops why k part) :
      Step reuseAddr s (s.detach t ops why k part)
  | readWinner (t : Nat) (ops : List (Place Λ)) (h : (s.coros t).phase = .readWinner ops) :
      Step reuseAddr s (s.readWinner t ops)
  | resume (t : Nat) (w : Wait Λ) (h : (s.coros t).phase = .suspended w)
      (hqueued : 0 < (s.coros t).queued) :
      Step reuseAddr s (s.set t { s.coros t with
        queued := (s.coros t).queued - 1, hook := none, phase := w.resume })
  | resumeEarly (t : Nat) (hbuild : reuseAddr = false) (h : (s.coros t).phase.suspending = true)
      (hqueued : 0 < (s.coros t).queued) :
      Step reuseAddr s (s.set t { s.coros t with
        queued := (s.coros t).queued - 1, hook := none, early := true })
  | resumed (t : Nat) (l : Λ) (h : (s.coros t).phase = .resumed l) :
      Step reuseAddr s (s.resumed t l)
  | onCancel (t : Nat) (w : Wait Λ) (hbuild : reuseAddr = true) (h : (s.coros t).hook = some w) :
      Step reuseAddr s (s.onCancel t w)
  | storeOwn (t : Nat) (h : (s.coros t).hookPc = .store) :
      Step reuseAddr s (s.set t { s.coros t with winner := .cancelled, hookPc := .enqueue })
  | enqueueSelf (t : Nat) (h : (s.coros t).hookPc = .enqueue) :
      Step reuseAddr s (s.set t { (s.coros t).enqueue (s.coros t).turn with hookPc := .idle })
  | wake (l : Λ) (count : Nat) : Step reuseAddr s (s.wake l count)
  | onFire (t k : Nat) : Step reuseAddr s (s.onFire t k)
  | finalize (t k : Nat) (h : (s.coros t).phase = .running)
      (htimer : ((s.coros t).sleepers k).timer = .armed ∨
        ((s.coros t).sleepers k).timer = .ended) :
      Step reuseAddr s (s.set t ((s.coros t).setTimer k .off))

inductive Runs (reuseAddr : Bool) : State Λ → Prop where
  | start : Runs reuseAddr .new
  | step {s s' : State Λ} (hs : Runs reuseAddr s) (h : Step reuseAddr s s') : Runs reuseAddr s'

/-- The steps of the build with `UVENT_ENABLE_REUSEADDR` that begin no suspension, take no
answer from an operation and wake nobody: what is left when a program that uses the
awaiters says when these happen. -/
inductive Inner (s : State Λ) : State Λ → Prop where
  | request (t : Nat) : Inner s (s.set t { s.coros t with requested := true })
  | attach (t : Nat) (w : Wait Λ) (k : Nat) (h : (s.coros t).phase = .attach w k) :
      Inner s (s.attach t w k)
  | startTimer (t : Nat) (w : Wait Λ) (k : Nat) (h : (s.coros t).phase = .startTimer w k) :
      Inner s (s.startTimer t w k)
  | undo (t : Nat) (l : Λ) (h : (s.coros t).phase = .undo l) : Inner s (s.undo t l)
  | arm (t : Nat) (w : Wait Λ) (h : (s.coros t).phase = .arm w) : Inner s (s.arm t w)
  | withdraw (t : Nat) (w : Wait Λ) (h : (s.coros t).phase = .withdraw w) :
      Inner s (s.withdraw t w)
  | detach (t : Nat) (ops : List (Place Λ)) (why : Why) (k : Nat) (part : Part)
      (h : (s.coros t).phase = .detach ops why k part) : Inner s (s.detach t ops why k part)
  | readWinner (t : Nat) (ops : List (Place Λ)) (h : (s.coros t).phase = .readWinner ops) :
      Inner s (s.readWinner t ops)
  | resume (t : Nat) (w : Wait Λ) (h : (s.coros t).phase = .suspended w)
      (hqueued : 0 < (s.coros t).queued) :
      Inner s (s.set t { s.coros t with
        queued := (s.coros t).queued - 1, hook := none, phase := w.resume })
  | resumed (t : Nat) (l : Λ) (h : (s.coros t).phase = .resumed l) : Inner s (s.resumed t l)
  | onCancel (t : Nat) (w : Wait Λ) (h : (s.coros t).hook = some w) : Inner s (s.onCancel t w)
  | storeOwn (t : Nat) (h : (s.coros t).hookPc = .store) :
      Inner s (s.set t { s.coros t with winner := .cancelled, hookPc := .enqueue })
  | enqueueSelf (t : Nat) (h : (s.coros t).hookPc = .enqueue) :
      Inner s (s.set t { (s.coros t).enqueue (s.coros t).turn with hookPc := .idle })
  | onFire (t k : Nat) : Inner s (s.onFire t k)

theorem Inner.step {s s' : State Λ} (h : Inner s s') : Step true s s' := by
  cases h with
  | request t => exact .request t
  | attach t w k h => exact .attach t w k h
  | startTimer t w k h => exact .startTimer t w k h
  | undo t l h => exact .undo t l h
  | arm t w h => exact .arm t w h
  | withdraw t w h => exact .withdraw t w h
  | detach t ops why k part h => exact .detach t ops why k part h
  | readWinner t ops h => exact .readWinner t ops h
  | resume t w h hqueued => exact .resume t w h hqueued
  | resumed t l h => exact .resumed t l h
  | onCancel t w h => exact .onCancel t w rfl h
  | storeOwn t h => exact .storeOwn t h
  | enqueueSelf t h => exact .enqueueSelf t h
  | onFire t k => exact .onFire t k

end Operations

end Uvent.Sync.Suspension
