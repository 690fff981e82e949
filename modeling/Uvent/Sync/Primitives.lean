import Uvent.Queue.MpmcConcurrent
import Uvent.Queue.SegmentedQueue
import Uvent.Sync.Suspension

/-!
# Channels, events and semaphores

The words of `AsyncChannel`, `AsyncUnboundedChannel`, `AsyncEvent` and `AsyncSemaphore`,
and what `try_complete` and the check of `attach` of their operations access, one access
at a time.  An `AsyncChannel` uses `MPMCQueue`, an `AsyncUnboundedChannel`
`SegmentedMPMCQueue`.

An element of a channel carries the call that sent it, which is not of the program.
-/

namespace Uvent.Sync.Primitives

open Uvent.Lib Uvent.Queue Uvent.Sync.Suspension

/-- The wait lists: `recv_waiters_` and `send_waiters_` of the channels, `waiters_` of the
events and of the semaphores. -/
inductive ListId where
  | recv (c : Nat)
  | send (c : Nat)
  | event (e : Nat)
  | sem (m : Nat)
  deriving DecidableEq, Repr

/-- What is sent over a channel, with the coroutine that sent it and the number of its
call. -/
structure Item (α : Type) where
  caller : Nat
  call : Nat
  value : α
  deriving DecidableEq, Repr

inductive Queue (α : Type) where
  | ring (cap : Nat) (w : World Nat (Mpmc.Ring α) (Mpmc.Pc α))
  | chain (size : Nat) (w : World Nat (Segmented.Chain α) (Segmented.Pc α))

/-- What is left of `empty_relaxed`.  In `MPMCQueue` either of the two loads may be the
first: the order of the operands of `==` is open. -/
inductive EmptyPc where
  | first
  | enqRead (e : Nat)
  | deqRead (d : Nat)
  | segment (s : Nat)
  | position (s d : Nat)
  | next (s : Nat)
  deriving DecidableEq, Repr

namespace Queue

variable {α : Type}

def enqueue (t : Nat) (v : α) : Queue α → Queue α
  | .ring cap w => .ring cap ⟨w.shared, Function.update w.own t (Mpmc.Call.tryEnqueue v).start⟩
  | .chain size w =>
      .chain size ⟨((Segmented.Call.enqueue v).start size t w.shared).1,
        Function.update w.own t ((Segmented.Call.enqueue v).start size t w.shared).2⟩

def dequeue (t : Nat) : Queue α → Queue α
  | .ring cap w => .ring cap ⟨w.shared, Function.update w.own t Mpmc.Call.tryDequeue.start⟩
  | .chain size w =>
      .chain size ⟨(Segmented.Call.tryDequeue.start size t w.shared).1,
        Function.update w.own t (Segmented.Call.tryDequeue.start size t w.shared).2⟩

/-- What a call of `SegmentedMPMCQueue` returns with its last step. -/
def lastStep (q : Segmented.Chain α) : Segmented.Pc α → Mpmc.Result α
  | .consume _ s i _ _ => .taken ((q.segs s).storage i)
  | .checkEmpty .. | .loadHeadNext .. => .empty
  | _ => .enqueued true

def step (t : Nat) (spurious : Bool) : Queue α → Option (Mpmc.Result α) × Queue α
  | .ring cap w =>
      let next := Mpmc.exec cap t spurious w.shared (w.own t)
      (match next.2 with
        | .ret r => some r
        | _ => none,
        .ring cap ⟨next.1, Function.update w.own t next.2⟩)
  | .chain size w =>
      let next := Segmented.exec size t spurious w.shared (w.own t)
      (match next.2 with
        | .idle => some (lastStep w.shared (w.own t))
        | _ => none,
        .chain size ⟨next.1, Function.update w.own t next.2⟩)

/-- A step of `empty_relaxed`; `enqFirst` is the order of the two loads. -/
def emptyStep (enqFirst : Bool) : Queue α → EmptyPc → EmptyPc ⊕ Bool
  | .ring _ w, .enqRead e => .inr (decide (e = w.shared.deqPos))
  | .ring _ w, .deqRead d => .inr (decide (w.shared.enqPos = d))
  | .ring _ w, _ => .inl (if enqFirst then .enqRead w.shared.enqPos else .deqRead w.shared.deqPos)
  | .chain size w, .segment s =>
      let d := (w.shared.segs s).deqPos
      .inl (if d < size then .position s d else .next s)
  | .chain _ w, .position s d => .inr (decide ((w.shared.segs s).enqPos ≤ d))
  | .chain _ w, .next s => .inr (decide (¬ s < w.shared.last))
  | .chain _ w, _ => .inl (.segment w.shared.head)

/-- `size_relaxed` of a queue whose counters were read as `e` and `d`. -/
def sizeRelaxed (cap e d : Nat) : Nat := min ((e + 2 ^ 64 - d) % 2 ^ 64) cap

/-- The list that a receiver wakes; an `AsyncUnboundedChannel` has no waiting senders. -/
def freed (c : Nat) : Queue α → Option ListId
  | .ring .. => some (.send c)
  | .chain .. => none

/-- The size of the segments of a `SegmentedMPMCQueue`. -/
def span : Queue α → Option Nat
  | .ring .. => none
  | .chain size _ => some size

variable (q : Queue α) (t c : Nat)

@[simp] theorem freed_enqueue (v : α) : (q.enqueue t v).freed c = q.freed c := by
  cases q <;> rfl

@[simp] theorem freed_dequeue : (q.dequeue t).freed c = q.freed c := by
  cases q <;> rfl

@[simp] theorem freed_step (spurious : Bool) : (q.step t spurious).2.freed c = q.freed c := by
  cases q <;> rfl

end Queue

structure Channel (α : Type) where
  queue : Queue (Item α)
  closed : Bool

structure AsyncEvent where
  manual : Bool
  isSet : Bool
  deriving DecidableEq, Repr

structure Words (α : Type) where
  channels : Nat → Channel α
  events : Nat → AsyncEvent
  counts : Nat → Int

namespace Words

variable {α : Type}

def setQueue (w : Words α) (c : Nat) (q : Queue (Item α)) : Words α :=
  { w with channels := Function.update w.channels c { w.channels c with queue := q } }

def close (w : Words α) (c : Nat) : Words α :=
  { w with channels := Function.update w.channels c { w.channels c with closed := true } }

def setEvent (w : Words α) (e : Nat) (b : Bool) : Words α :=
  { w with events := Function.update w.events e { w.events e with isSet := b } }

def setCount (w : Words α) (m : Nat) (n : Int) : Words α :=
  { w with counts := Function.update w.counts m n }

variable {w : Words α} {c d e f : Nat}

@[simp] theorem setQueue_self (q : Queue (Item α)) :
    (w.setQueue c q).channels c = { w.channels c with queue := q } := Function.update_self ..

theorem setQueue_of_ne (q : Queue (Item α)) (h : d ≠ c) :
    (w.setQueue c q).channels d = w.channels d := Function.update_of_ne h ..

@[simp] theorem close_self : (w.close c).channels c = { w.channels c with closed := true } :=
  Function.update_self ..

theorem close_of_ne (h : d ≠ c) : (w.close c).channels d = w.channels d :=
  Function.update_of_ne h ..

@[simp] theorem setEvent_self (b : Bool) :
    (w.setEvent e b).events e = { w.events e with isSet := b } := Function.update_self ..

theorem setEvent_of_ne (b : Bool) (h : f ≠ e) : (w.setEvent e b).events f = w.events f :=
  Function.update_of_ne h ..

/-- The list that a receiver wakes is that of the senders. -/
theorem of_freed {q : Queue α} {l : ListId} (h : q.freed c = some l) : l = .send c := by
  cases q with
  | ring => exact (Option.some.inj h).symm
  | chain => cases h

end Words

inductive Op (α : Type) where
  | send (c : Nat) (v : α)
  | recv (c : Nat)
  | wait (e : Nat)
  | acquire (m : Nat)
  | sleep
  deriving DecidableEq, Repr

inductive Result (α : Type) where
  | sent (ok : Bool)
  | received (out : Option (Item α))
  | drained
  | passed
  deriving DecidableEq, Repr

/-- Where an attempt to complete an operation is.  `closedFirst` is the load of `closed_`
in `ChannelSendOp::try_complete`, before the one of `try_send_tuple`. -/
inductive TryPc where
  | closedFirst
  | closed
  | enter
  | queue
  | drainedClosed
  | drainedEmpty (p : EmptyPc)
  | consume
  | load
  | cas (n : Int)
  | fired
  deriving DecidableEq, Repr

/-- What comes of a step of an attempt: there is more to do, the operation is not ready,
or it is completed and the front waiter of a list is woken. -/
inductive Next (α : Type) where
  | more (p : TryPc)
  | fail
  | done (r : Result α) (wake : Option ListId)

namespace Op

variable {α : Type}

def place : Op α → Place ListId
  | .send c _ => .listed (.send c)
  | .recv c => .listed (.recv c)
  | .wait e => .listed (.event e)
  | .acquire m => .listed (.sem m)
  | .sleep => .sleep

/-- Where an attempt begins: `full` is `try_complete`, the other is `try_send`, `try_recv`,
`try_consume` or `try_acquire`. -/
def start (full : Bool) : Op α → TryPc
  | .send .. => if full then .closedFirst else .closed
  | .recv _ => .enter
  | .wait _ => .consume
  | .acquire _ => .load
  | .sleep => .fired

/-- A step of coroutine `t` in its call `n`; `spurious` is a weak compare-exchange that
fails without reason, or the order of two loads, and `fired` what the timer of a `SleepOp`
says. -/
def tryStep (t n : Nat) (full spurious fired : Bool) (w : Words α) :
    Op α → TryPc → Words α × Next α
  | .send c _, .closedFirst =>
      (w, if (w.channels c).closed then .done (.sent false) none else .more .closed)
  | .send c _, .closed => (w, if (w.channels c).closed then .fail else .more .enter)
  | .send c v, .enter =>
      (w.setQueue c ((w.channels c).queue.enqueue t ⟨t, n, v⟩), .more .queue)
  | .send c _, .queue =>
      let next := (w.channels c).queue.step t spurious
      (w.setQueue c next.2,
        match next.1 with
        | none => .more .queue
        | some (.enqueued true) => .done (.sent true) (some (.recv c))
        | some _ => .fail)
  | .recv c, .enter => (w.setQueue c ((w.channels c).queue.dequeue t), .more .queue)
  | .recv c, .queue =>
      let next := (w.channels c).queue.step t spurious
      (w.setQueue c next.2,
        match next.1 with
        | none => .more .queue
        | some (.taken out) => .done (.received out) ((w.channels c).queue.freed c)
        | some _ => if full then .more .drainedClosed else .fail)
  | .recv c, .drainedClosed =>
      (w, if (w.channels c).closed then .more (.drainedEmpty .first) else .fail)
  | .recv c, .drainedEmpty p =>
      (w, match (w.channels c).queue.emptyStep spurious p with
        | .inl p' => .more (.drainedEmpty p')
        | .inr true => .done .drained none
        | .inr false => .fail)
  | .wait e, .consume =>
      if (w.events e).isSet then
        (if (w.events e).manual then w else w.setEvent e false, .done .passed none)
      else (w, .fail)
  | .acquire m, .load => (w, if w.counts m ≤ 0 then .fail else .more (.cas (w.counts m)))
  | .acquire m, .cas x =>
      if w.counts m = x ∧ spurious = false then (w.setCount m (x - 1), .done .passed none)
      else (w, if w.counts m ≤ 0 then .fail else .more (.cas (w.counts m)))
  | .sleep, .fired => (w, if fired then .done .passed none else .fail)
  | _, p => (w, .more p)

end Op

inductive Op.Touches {α : Type} (w : Words α) : Op α → Words α → Prop where
  | nothing (op : Op α) : Touches w op w
  | queue (op : Op α) (c : Nat) (q : Queue (Item α))
      (hfreed : q.freed c = (w.channels c).queue.freed c) : Touches w op (w.setQueue c q)
  | consume (e : Nat) (hset : (w.events e).isSet = true) (hauto : (w.events e).manual = false) :
      Touches w (.wait e) (w.setEvent e false)
  | acquire (m : Nat) (x : Int) : Touches w (.acquire m) (w.setCount m x)

theorem Op.touches {α : Type} (t n : Nat) (full spurious fired : Bool) (w : Words α) (op : Op α)
    (p : TryPc) : op.Touches w (op.tryStep t n full spurious fired w p).1 := by
  cases op with
  | send c v =>
    cases p with
    | enter => exact .queue _ c _ (Queue.freed_enqueue ..)
    | queue => exact .queue _ c _ (Queue.freed_step ..)
    | closedFirst | closed | drainedClosed | drainedEmpty | consume | load | cas | fired =>
      exact .nothing _
  | recv c =>
    cases p with
    | enter => exact .queue _ c _ (Queue.freed_dequeue ..)
    | queue => exact .queue _ c _ (Queue.freed_step ..)
    | closedFirst | closed | drainedClosed | drainedEmpty | consume | load | cas | fired =>
      exact .nothing _
  | wait e =>
    cases p with
    | consume =>
      by_cases hset : (w.events e).isSet = true
      · by_cases hmanual : (w.events e).manual = true
        · simp only [tryStep, if_pos hset, if_pos hmanual]
          exact .nothing _
        · simp only [tryStep, if_pos hset, if_neg hmanual]
          exact .consume e hset (Bool.not_eq_true _ ▸ hmanual)
      · simp only [tryStep, if_neg hset]
        exact .nothing _
    | closedFirst | closed | enter | queue | drainedClosed | drainedEmpty | load | cas | fired =>
      exact .nothing _
  | acquire m =>
    cases p with
    | cas x =>
      by_cases hsame : w.counts m = x ∧ spurious = false
      · simp only [tryStep, if_pos hsame]
        exact .acquire m (x - 1)
      · simp only [tryStep, if_neg hsame]
        exact .nothing _
    | closedFirst | closed | enter | queue | drainedClosed | drainedEmpty | consume | load | fired =>
      exact .nothing _
  | sleep => cases p <;> exact .nothing _

def Op.channel {α : Type} : Op α → TryPc → Option Nat
  | .send c _, .enter | .send c _, .queue | .recv c, .enter | .recv c, .queue => some c
  | _, _ => none

/-- The step leaves the channels, comes to no queue, sends nothing and receives nothing. -/
structure Op.Apart {α : Type} (w : Words α) (p : TryPc) (next : Words α × Next α) : Prop where
  channels : next.1.channels = w.channels
  queue : next.2 = .more .queue → p = .queue
  answer : ∀ r wake, next.2 = .done r wake → r ≠ .sent true ∧ ∀ out, r ≠ .received out

theorem Op.tryStep_apart {α : Type} (t n : Nat) (full spurious fired : Bool) (w : Words α)
    {op : Op α} {p : TryPc} (h : op.channel p = none) :
    Op.Apart w p (op.tryStep t n full spurious fired w p) := by
  cases op with
  | send c v =>
    cases p with
    | enter | queue => cases h
    | closedFirst =>
      simp only [tryStep]
      split
      · exact ⟨rfl, nofun, fun _ _ hr => by cases hr; exact ⟨nofun, nofun⟩⟩
      · exact ⟨rfl, nofun, nofun⟩
    | closed =>
      simp only [tryStep]
      split
      · exact ⟨rfl, nofun, nofun⟩
      · exact ⟨rfl, nofun, nofun⟩
    | drainedClosed | drainedEmpty | consume | load | cas | fired => exact ⟨rfl, nofun, nofun⟩
  | recv c =>
    cases p with
    | enter | queue => cases h
    | drainedClosed =>
      simp only [tryStep]
      split
      · exact ⟨rfl, nofun, nofun⟩
      · exact ⟨rfl, nofun, nofun⟩
    | drainedEmpty p =>
      simp only [tryStep]
      split
      · exact ⟨rfl, nofun, nofun⟩
      · exact ⟨rfl, nofun, fun _ _ hr => by cases hr; exact ⟨nofun, nofun⟩⟩
      · exact ⟨rfl, nofun, nofun⟩
    | closedFirst | closed | consume | load | cas | fired => exact ⟨rfl, nofun, nofun⟩
  | wait e =>
    cases p with
    | consume =>
      simp only [tryStep]
      split
      · refine ⟨?_, nofun, fun _ _ hr => by cases hr; exact ⟨nofun, nofun⟩⟩
        dsimp only
        split <;> rfl
      · exact ⟨rfl, nofun, nofun⟩
    | queue => exact ⟨rfl, fun _ => rfl, nofun⟩
    | closedFirst | closed | enter | drainedClosed | drainedEmpty | load | cas | fired =>
      exact ⟨rfl, nofun, nofun⟩
  | acquire m =>
    cases p with
    | load =>
      simp only [tryStep]
      split
      · exact ⟨rfl, nofun, nofun⟩
      · exact ⟨rfl, nofun, nofun⟩
    | cas x =>
      simp only [tryStep]
      split
      · exact ⟨rfl, nofun, fun _ _ hr => by cases hr; exact ⟨nofun, nofun⟩⟩
      · split
        · exact ⟨rfl, nofun, nofun⟩
        · exact ⟨rfl, nofun, nofun⟩
    | queue => exact ⟨rfl, fun _ => rfl, nofun⟩
    | closedFirst | closed | enter | drainedClosed | drainedEmpty | consume | fired =>
      exact ⟨rfl, nofun, nofun⟩
  | sleep =>
    cases p with
    | fired =>
      simp only [tryStep]
      split
      · exact ⟨rfl, nofun, fun _ _ hr => by cases hr; exact ⟨nofun, nofun⟩⟩
      · exact ⟨rfl, nofun, nofun⟩
    | queue => exact ⟨rfl, fun _ => rfl, nofun⟩
    | closedFirst | closed | enter | drainedClosed | drainedEmpty | consume | load | cas =>
      exact ⟨rfl, nofun, nofun⟩

def Op.Past {α : Type} (c : Nat) : Op α → TryPc → Prop
  | .send d _, .enter | .send d _, .queue => d = c
  | _, _ => False

/-- What `try_complete` of a receive has found when it says that the channel is drained. -/
inductive Op.Finds {α : Type} (w : Words α) (spurious : Bool) (c : Nat) :
    TryPc → Next α → Prop where
  | closed (h : (w.channels c).closed = true) :
      Finds w spurious c .drainedClosed (.more (.drainedEmpty .first))
  | goes (p p' : EmptyPc) (h : (w.channels c).queue.emptyStep spurious p = .inl p') :
      Finds w spurious c (.drainedEmpty p) (.more (.drainedEmpty p'))
  | drained (p : EmptyPc) (h : (w.channels c).queue.emptyStep spurious p = .inr true) :
      Finds w spurious c (.drainedEmpty p) (.done .drained none)
  | other (p : TryPc) (next : Next α) (hmore : ∀ p', next ≠ .more (.drainedEmpty p'))
      (hdone : ∀ wake, next ≠ .done .drained wake) : Finds w spurious c p next

section Steps

variable {α : Type} (t n : Nat) (full spurious fired : Bool) (w : Words α)

/-- A send is past the check of `closed_` only when the channel was open. -/
theorem Op.tryStep_past {op : Op α} {p p' : TryPc} {c : Nat}
    (hmore : (op.tryStep t n full spurious fired w p).2 = .more p') (hpast : op.Past c p') :
    op.Past c p ∨ (w.channels c).closed = false := by
  cases op with
  | recv | wait | acquire | sleep => exact hpast.elim
  | send d v =>
    cases p with
    | closedFirst =>
      simp only [tryStep] at hmore
      split at hmore
      · cases hmore
      · cases hmore
        exact hpast.elim
    | closed =>
      simp only [tryStep] at hmore
      split at hmore
      · cases hmore
      · rename_i hopen
        cases hmore
        exact .inr (hpast ▸ Bool.not_eq_true _ ▸ hopen)
    | enter =>
      cases hmore
      exact .inl hpast
    | queue =>
      simp only [tryStep] at hmore
      split at hmore <;> cases hmore
      exact .inl hpast
    | drainedClosed | drainedEmpty | consume | load | cas | fired =>
      cases hmore
      exact hpast.elim

theorem Op.tryStep_finds (c : Nat) (p : TryPc) :
    Op.Finds w spurious c p ((Op.recv c).tryStep t n full spurious fired w p).2 := by
  cases p with
  | queue =>
    simp only [tryStep]
    split
    · exact .other _ _ nofun nofun
    · exact .other _ _ nofun nofun
    · split <;> exact .other _ _ nofun nofun
  | drainedClosed =>
    simp only [tryStep]
    split
    · rename_i hclosed
      exact .closed hclosed
    · exact .other _ _ nofun nofun
  | drainedEmpty p =>
    simp only [tryStep]
    split
    · rename_i p' hstep
      exact .goes p p' hstep
    · rename_i hstep
      exact .drained p hstep
    · exact .other _ _ nofun nofun
  | closedFirst | closed | enter | consume | load | cas | fired => exact .other _ _ nofun nofun

end Steps

/-- Where the check of an `attach` is. -/
inductive CheckPc where
  | first
  | empty (p : EmptyPc)
  | full (e : Nat)
  | closed
  deriving DecidableEq, Repr

/-- A step of the check of an `attach` to a list; the answer is whether to wait. -/
def checkStep {α : Type} (enqFirst : Bool) (w : Words α) : ListId → CheckPc → CheckPc ⊕ Bool
  | .recv c, .closed | .send c, .closed => .inr (!(w.channels c).closed)
  | .recv c, p =>
      let at' : EmptyPc := match p with
        | .empty p => p
        | _ => .first
      match (w.channels c).queue.emptyStep enqFirst at' with
      | .inl p' => .inl (.empty p')
      | .inr true => .inl .closed
      | .inr false => .inr false
  | .send c, .full e =>
      match (w.channels c).queue with
      | .ring cap q => if cap ≤ Queue.sizeRelaxed cap e q.shared.deqPos then .inl .closed else .inr false
      | .chain .. => .inr false
  | .send c, _ =>
      match (w.channels c).queue with
      | .ring _ q => .inl (.full q.shared.enqPos)
      | .chain .. => .inr false
  | .event e, _ => .inr (!(w.events e).isSet)
  | .sem m, _ => .inr (decide (w.counts m ≤ 0))

/-- What the check of an `attach` has seen when it says to wait. -/
def Words.Refuses {α : Type} (w : Words α) : ListId → Prop
  | .recv c | .send c => (w.channels c).closed = false
  | .event e => (w.events e).isSet = false
  | .sem m => w.counts m ≤ 0

theorem refuses_of_checkStep {α : Type} {enqFirst : Bool} {w : Words α} {l : ListId} {p : CheckPc}
    (h : checkStep enqFirst w l p = .inr true) : w.Refuses l := by
  unfold checkStep at h
  split at h
  · exact (Bool.not_eq_true' _).mp (Sum.inr.inj h)
  · exact (Bool.not_eq_true' _).mp (Sum.inr.inj h)
  · dsimp only at h
    split at h <;> cases h
  · split at h
    · split at h <;> cases h
    · cases h
  · split at h <;> cases h
  · exact (Bool.not_eq_true' _).mp (Sum.inr.inj h)
  · rename_i m
    have hcount : w.counts m ≤ 0 := of_decide_eq_true (Sum.inr.inj h)
    exact hcount

end Uvent.Sync.Primitives
