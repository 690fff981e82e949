import Mathlib.Logic.Function.Iterate
import Uvent.Sync.Primitives

/-!
# Coroutines that use channels, events and semaphores

Any number of coroutines that make any calls, in any interleaving.  A coroutine tries the
operations of its call in turn; when none is ready it suspends in `OpWait`, `SelectSuspend`
or `MultiRecvWait`, and comes back to try again, or to give up when it was cancelled.  Who
completes an operation wakes the front waiter of a list.

Every atomic access is a step, and so is every section under the lock of a wait list.  The
waits are those of the build with `UVENT_ENABLE_REUSEADDR`.
-/

namespace Uvent.Sync.Primitives

open Uvent.Lib Uvent.Queue Uvent.Sync.Suspension

/-- `once` is `try_send`, `try_recv`, `try_consume`, `try_acquire` or the `send` of an
`AsyncUnboundedChannel`, and `plain` is `send`, `recv`, `wait` or `acquire`. -/
inductive Call (α : Type) where
  | once (op : Op α)
  | plain (op : Op α)
  | select (ops : List (Op α))
  | selectRecv (cs : List Nat)
  | close (c : Nat)
  | set (e : Nat)
  | reset (e : Nat)
  | release (m k : Nat)
  deriving DecidableEq

namespace Call

variable {α : Type}

def ops : Call α → List (Op α)
  | .once op | .plain op => [op]
  | .select ops => ops
  | .selectRecv cs => cs.map .recv
  | _ => []

/-- The call tries its operations with `try_complete`. -/
def full : Call α → Bool
  | .plain _ | .select _ => true
  | _ => false

/-- What the call suspends in; `select_recv` waits for the channels that are not drained. -/
def wait : Call α → Wait ListId
  | .plain op =>
      match op.place with
      | .listed l => .op l
      | .sleep => .select [.sleep]
  | .select ops => .select (ops.map Op.place)
  | _ => .select []

end Call

/-- An `AsyncUnboundedChannel` has no `send_op`. -/
def Op.Bounded {α : Type} (w : Words α) : Op α → Prop
  | .send c _ => ∃ cap q, (w.channels c).queue = .ring cap q
  | _ => True

/-- What the types of the calls and their `static_assert`s let through. -/
def Call.Valid {α : Type} (w : Words α) : Call α → Prop
  | .once op => op.place ≠ .sleep
  | .plain op => op.place ≠ .sleep ∧ op.Bounded w
  | .select ops => ops ≠ [] ∧ ∀ op ∈ ops, op.Bounded w
  | .selectRecv cs => 2 ≤ cs.length
  | .release _ k => 1 ≤ k
  | _ => True

/-- What a call returns: operation `i` was completed; or it was not ready, at `once`; or
the coroutine was cancelled; or all channels of a `select_recv` were drained. -/
inductive Answer (α : Type) where
  | done (i : Nat) (r : Result α)
  | refused
  | cancelled
  | drained
  | finished
  deriving DecidableEq

/-- A call with the place it begins its round at.  `owed` are the lists the coroutine was
woken through and has not found anything in since; they are not of the program. -/
structure Ctx (α : Type) where
  call : Call α
  start : Nat
  owed : List ListId

/-- Where a coroutine is in its call.  `draining` is the loop of `select_recv` behind its
round: `p` is `none` at the load of `closed_`, and `alive` are the channels it waits for.
`waking` has the lists that are still to be woken, with how many of their waiters (`none`
is all); with no list left the call returns `answer`. -/
inductive Pc (α : Type) where
  | idle
  | trying (c : Ctx α) (k : Nat) (p : TryPc)
  | draining (c : Ctx α) (k : Nat) (p : Option EmptyPc) (alive : List Nat)
  | pausing (c : Ctx α) (w : Wait ListId)
  | waiting (c : Ctx α) (w : Wait ListId) (p : CheckPc)
  | direct (c : Ctx α)
  | waking (c : Ctx α) (todo : List (ListId × Option Nat)) (locked : Bool) (answer : Answer α)

/-- What has happened, for the statements: the changes of counts and flags, and the calls
that have returned. -/
inductive Entry (α : Type) where
  | released (m k : Nat)
  | acquired (m t n : Nat)
  | raised (e : Nat)
  | consumed (e : Nat)
  | returned (t n : Nat) (call : Call α) (answer : Answer α)
  deriving DecidableEq

/-- `calls` counts the calls of a coroutine. -/
structure State (α : Type) where
  words : Words α
  waits : Suspension.State ListId
  pcs : Nat → Pc α
  calls : Nat → Nat
  log : List (Entry α)

def State.new {α : Type} (w : Words α) : State α := ⟨w, .new, fun _ => .idle, fun _ => 0, []⟩

/-- A failed attempt at an operation on the list shows that there was nothing for it.  In
`MPMCQueue` an operation also fails because another one is at work on its cell. -/
def Words.sharp {α : Type} (w : Words α) : ListId → Bool
  | .recv c =>
      match (w.channels c).queue with
      | .ring .. => false
      | .chain .. => true
  | .send _ => false
  | .event _ | .sem _ => true

/-- The operation was not ready; `try_complete` of a receive goes on to look whether the
channel is drained. -/
def Next.refutes {α : Type} : Next α → Bool
  | .fail | .more .drainedClosed => true
  | _ => false

namespace Ctx

variable {α : Type}

def index (c : Ctx α) (k : Nat) : Nat := (c.start + k) % c.call.ops.length

def settle (c : Ctx α) (l : ListId) : Ctx α := { c with owed := c.owed.filter (· ≠ l) }

/-- `settle` for the list of an operation that was tried. -/
def settleOp (c : Ctx α) (w : Words α) (op : Op α) (next : Next α) : Ctx α :=
  match op.place with
  | .listed l => if next.refutes && w.sharp l then c.settle l else c
  | .sleep => c

def attempt (c : Ctx α) (k : Nat) : Pc α :=
  match c.call.ops[c.index k]? with
  | some op => .trying c k (op.start c.call.full)
  | none => .idle

def failed (c : Ctx α) (k : Nat) : Pc α :=
  if k + 1 < c.call.ops.length then c.attempt (k + 1)
  else match c.call with
    | .once _ => .waking c [] false .refused
    | .selectRecv _ => .draining c 0 none []
    | call => .pausing c call.wait

end Ctx

def wokenFor (w : Wait ListId) : Winner → List ListId
  | .index k =>
      match w.places[k]? with
      | some (.listed l) => [l]
      | _ => []
  | _ => []

def Op.entries {α : Type} (t n : Nat) (w : Words α) : Op α → List (Entry α)
  | .acquire m => [.acquired m t n]
  | .wait e => if (w.events e).manual then [] else [.consumed e]
  | _ => []

namespace State

variable {α : Type}

def setPc (s : State α) (t : Nat) (pc : Pc α) : State α :=
  { s with pcs := Function.update s.pcs t pc }

/-- A call begins; the rotation of a `select` gives `start`. -/
def begin (s : State α) (t : Nat) (call : Call α) (start : Nat) : State α :=
  { s with
    calls := Function.update s.calls t (s.calls t + 1),
    pcs := Function.update s.pcs t
      (if call.ops = [] then .direct ⟨call, start, []⟩ else (Ctx.mk call start []).attempt 0) }

/-- An access of an attempt; `spurious` is that of `Op.tryStep`. -/
def attempt (s : State α) (t : Nat) (c : Ctx α) (k : Nat) (op : Op α) (p : TryPc)
    (spurious : Bool) : State α :=
  let fired := ((s.waits.coros t).sleepers (c.index k)).timer.fired
  let next := op.tryStep t (s.calls t) c.call.full spurious fired s.words p
  let c' := c.settleOp s.words op next.2
  match next.2 with
  | .more p' => { s.setPc t (.trying c' k p') with words := next.1 }
  | .fail => { s.setPc t (c'.failed k) with words := next.1 }
  | .done r wake =>
      { s.setPc t (.waking c (wake.toList.map fun l => (l, some 1)) false
          (.done (c.index k) r)) with
        words := next.1, log := op.entries t (s.calls t) s.words ++ s.log }

/-- An access of `drained` for the channels of a `select_recv`, one after the other. -/
def drain (s : State α) (t : Nat) (c : Ctx α) (cs : List Nat) (k : Nat) (p : Option EmptyPc)
    (alive : List Nat) (enqFirst : Bool) : State α :=
  s.setPc t <|
    match cs[k]?, p with
    | none, _ =>
        if alive = [] then .waking c [] false .drained
        else .pausing c (.select (alive.map fun ch => .listed (.recv ch)))
    | some ch, none =>
        if (s.words.channels ch).closed then .draining c k (some .first) alive
        else .draining c (k + 1) none (alive ++ [ch])
    | some ch, some p =>
        match (s.words.channels ch).queue.emptyStep enqFirst p with
        | .inl p' => .draining c k (some p') alive
        | .inr true => .draining c (k + 1) none alive
        | .inr false => .draining c (k + 1) none (alive ++ [ch])

/-- An access of the check of `attach` for list `l`. -/
def load (s : State α) (t : Nat) (c : Ctx α) (w : Wait ListId) (k : Nat) (l : ListId)
    (p : CheckPc) (enqFirst : Bool) : State α :=
  match checkStep enqFirst s.words l p with
  | .inl p' => s.setPc t (.waiting c w p')
  | .inr b =>
      { s.setPc t (.waiting (if b then c.settle l else c) w .first) with
        waits := s.waits.look t w k b }

/-- `co_await` has returned; `select_recv` takes a new rotation for every round. -/
def answer (s : State α) (t : Nat) (c : Ctx α) (w : Wait ListId) (start : Nat) : State α :=
  let coro := s.waits.coros t
  s.setPc t <|
    if coro.answer then
      (Ctx.mk c.call (match c.call with
        | .selectRecv _ => start
        | _ => c.start) (wokenFor w coro.winner ++ c.owed)).attempt 0
    else .waking c [] false .cancelled

/-- The accesses of `close`, `set`, `reset` and `release` before they wake. -/
def direct (s : State α) (t : Nat) (c : Ctx α) : State α :=
  let wake (todo : List (ListId × Option Nat)) : State α := s.setPc t (.waking c todo false .finished)
  match c.call with
  | .close ch =>
      if (s.words.channels ch).closed then wake []
      else
        { wake ((.recv ch, none) :: ((s.words.channels ch).queue.freed ch).toList.map (·, none)) with
          words := s.words.close ch }
  | .set e =>
      if (s.words.events e).isSet then wake []
      else
        { wake [(.event e, if (s.words.events e).manual then none else some 1)] with
          words := s.words.setEvent e true, log := .raised e :: s.log }
  | .reset e =>
      if (s.words.events e).manual then { wake [] with words := s.words.setEvent e false } else wake []
  | .release m k =>
      { wake [(.sem m, some k)] with
        words := s.words.setCount m (s.words.counts m + k), log := .released m k :: s.log }
  | _ => wake []

theorem direct_release {s : State α} {t : Nat} {c : Ctx α} {m k : Nat} (h : c.call = .release m k) :
    s.direct t c = { s.setPc t (.waking c [(.sem m, some k)] false .finished) with
      words := s.words.setCount m (s.words.counts m + k), log := .released m k :: s.log } := by
  simp only [direct, h]

/-- The check of `attach` goes on, or has an answer. -/
theorem load_cases (s : State α) (t : Nat) (c : Ctx α) (w : Wait ListId) (k : Nat) (l : ListId)
    (p : CheckPc) (enqFirst : Bool) :
    (∃ p', s.load t c w k l p enqFirst = s.setPc t (.waiting c w p')) ∨
      ∃ b, s.load t c w k l p enqFirst =
        { s.setPc t (.waiting (if b then c.settle l else c) w .first) with
          waits := s.waits.look t w k b } := by
  rw [load]
  split
  · exact .inl ⟨_, rfl⟩
  · exact .inr ⟨_, rfl⟩

theorem load_answers (s : State α) (t : Nat) (c : Ctx α) (w : Wait ListId) (k : Nat) (l : ListId)
    (p : CheckPc) (enqFirst : Bool) :
    (∃ p', s.load t c w k l p enqFirst = s.setPc t (.waiting c w p')) ∨
      ∃ b, checkStep enqFirst s.words l p = .inr b ∧ s.load t c w k l p enqFirst =
        { s.setPc t (.waiting (if b then c.settle l else c) w .first) with
          waits := s.waits.look t w k b } := by
  rw [load]
  split
  · exact .inl ⟨_, rfl⟩
  · rename_i b hcheck
    exact .inr ⟨b, hcheck, rfl⟩

/-- What a step of an attempt comes to, where the step gives `next`. -/
inductive Attempted (s : State α) (t : Nat) (c : Ctx α) (k : Nat) (op : Op α)
    (next : Words α × Next α) : State α → Prop where
  | more (p : TryPc) (h : next.2 = .more p) : Attempted s t c k op next
      { s.setPc t (.trying (c.settleOp s.words op (.more p)) k p) with words := next.1 }
  | fail (h : next.2 = .fail) : Attempted s t c k op next
      { s.setPc t ((c.settleOp s.words op .fail).failed k) with words := next.1 }
  | done (r : Result α) (wake : Option ListId) (h : next.2 = .done r wake) :
      Attempted s t c k op next
        { s.setPc t (.waking c (wake.toList.map fun l => (l, some 1)) false (.done (c.index k) r)) with
          words := next.1, log := op.entries t (s.calls t) s.words ++ s.log }

theorem attempted (s : State α) (t : Nat) (c : Ctx α) (k : Nat) (op : Op α) (p : TryPc)
    (spurious : Bool) : Attempted s t c k op (op.tryStep t (s.calls t) c.call.full spurious
      ((s.waits.coros t).sleepers (c.index k)).timer.fired s.words p)
      (s.attempt t c k op p spurious) := by
  simp only [attempt]
  split
  · rename_i p' hnext
    rw [hnext]
    exact .more p' hnext
  · rename_i hnext
    rw [hnext]
    exact .fail hnext
  · rename_i r wake hnext
    exact .done r wake hnext

/-- Where a `select_recv` goes on that looks at its channels. -/
inductive Drains (s : State α) (c : Ctx α) (cs : List Nat) (k : Nat) (enqFirst : Bool) :
    Option EmptyPc → List Nat → Pc α → Prop where
  | scanned (p : Option EmptyPc) (h : cs[k]? = none) :
      Drains s c cs k enqFirst p [] (.waking c [] false .drained)
  | waits (p : Option EmptyPc) (alive : List Nat) (w : Wait ListId) :
      Drains s c cs k enqFirst p alive (.pausing c w)
  | closed (ch : Nat) (alive : List Nat) (h : cs[k]? = some ch)
      (hclosed : (s.words.channels ch).closed = true) :
      Drains s c cs k enqFirst none alive (.draining c k (some .first) alive)
  | goes (ch : Nat) (alive : List Nat) (p p' : EmptyPc) (h : cs[k]? = some ch)
      (hstep : (s.words.channels ch).queue.emptyStep enqFirst p = .inl p') :
      Drains s c cs k enqFirst (some p) alive (.draining c k (some p') alive)
  | drained (ch : Nat) (alive : List Nat) (p : EmptyPc) (h : cs[k]? = some ch)
      (hstep : (s.words.channels ch).queue.emptyStep enqFirst p = .inr true) :
      Drains s c cs k enqFirst (some p) alive (.draining c (k + 1) none alive)
  | alive (ch : Nat) (p : Option EmptyPc) (alive : List Nat) (h : cs[k]? = some ch) :
      Drains s c cs k enqFirst p alive (.draining c (k + 1) none (alive ++ [ch]))

theorem drain_cases (s : State α) (t : Nat) (c : Ctx α) (cs : List Nat) (k : Nat)
    (p : Option EmptyPc) (alive : List Nat) (enqFirst : Bool) :
    ∃ pc, s.drain t c cs k p alive enqFirst = s.setPc t pc ∧ Drains s c cs k enqFirst p alive pc := by
  refine ⟨_, rfl, ?_⟩
  split
  · rename_i hover
    split
    · rename_i halive
      rw [halive]
      exact .scanned _ hover
    · exact .waits _ alive _
  · rename_i ch hch
    split
    · rename_i hclosed
      exact .closed ch alive hch hclosed
    · exact .alive ch none alive hch
  · rename_i ch p' hch
    split
    · rename_i p'' hstep
      exact .goes ch alive p' p'' hch hstep
    · rename_i hstep
      exact .drained ch alive p' hch hstep
    · exact .alive ch _ alive hch

/-- What `close`, `set`, `reset` and `release` do before they wake. -/
inductive Directed (s : State α) (t : Nat) (c : Ctx α) : State α → Prop where
  | nothing : Directed s t c (s.setPc t (.waking c [] false .finished))
  | close (ch : Nat) (hcall : c.call = .close ch) (hopen : (s.words.channels ch).closed = false) :
      Directed s t c { s.setPc t (.waking c ((.recv ch, none) ::
          ((s.words.channels ch).queue.freed ch).toList.map (·, none)) false .finished) with
        words := s.words.close ch }
  | set (e : Nat) (hcall : c.call = .set e) (hclear : (s.words.events e).isSet = false) :
      Directed s t c { s.setPc t (.waking c
          [(.event e, if (s.words.events e).manual then none else some 1)] false .finished) with
        words := s.words.setEvent e true, log := .raised e :: s.log }
  | reset (e : Nat) (hcall : c.call = .reset e) (hmanual : (s.words.events e).manual = true) :
      Directed s t c { s.setPc t (.waking c [] false .finished) with
        words := s.words.setEvent e false }
  | release (m k : Nat) (hcall : c.call = .release m k) :
      Directed s t c { s.setPc t (.waking c [(.sem m, some k)] false .finished) with
        words := s.words.setCount m (s.words.counts m + k), log := .released m k :: s.log }

theorem directed (s : State α) (t : Nat) (c : Ctx α) : Directed s t c (s.direct t c) := by
  simp only [direct]
  split
  · rename_i ch hcall
    split
    · exact .nothing
    · rename_i hopen
      exact .close ch hcall (Bool.not_eq_true _ ▸ hopen)
  · rename_i e hcall
    split
    · exact .nothing
    · rename_i hclear
      exact .set e hcall (Bool.not_eq_true _ ▸ hclear)
  · rename_i e hcall
    split
    · rename_i hmanual
      exact .reset e hcall hmanual
    · exact .nothing
  · rename_i m k hcall
    exact .release m k hcall
  · exact .nothing

end State

/-- A step, of a coroutine in its call or of none; `calls` are the calls that the program
makes. -/
inductive Step {α : Type} (calls : Call α → Prop) (s : State α) : Option Nat → State α → Prop where
  | begin (t : Nat) (call : Call α) (start : Nat) (h : s.pcs t = .idle)
      (hvalid : call.Valid s.words) (hcalls : calls call) :
      Step calls s (some t) (s.begin t call start)
  | attempt (t : Nat) (c : Ctx α) (k : Nat) (op : Op α) (p : TryPc) (spurious : Bool)
      (h : s.pcs t = .trying c k p) (hop : c.call.ops[c.index k]? = some op) :
      Step calls s (some t) (s.attempt t c k op p spurious)
  | drain (t : Nat) (c : Ctx α) (cs : List Nat) (k : Nat) (p : Option EmptyPc) (alive : List Nat)
      (enqFirst : Bool) (h : s.pcs t = .draining c k p alive) (hcall : c.call = .selectRecv cs) :
      Step calls s (some t) (s.drain t c cs k p alive enqFirst)
  | pause (t : Nat) (c : Ctx α) (w : Wait ListId) (h : s.pcs t = .pausing c w)
      (hphase : (s.waits.coros t).phase = .running) :
      Step calls s (some t) { s.setPc t (.waiting c w .first) with
        waits := s.waits.set t ((s.waits.coros t).start w) }
  | check (t : Nat) (c : Ctx α) (w : Wait ListId) (p : CheckPc) (h : s.pcs t = .waiting c w p)
      (hphase : (s.waits.coros t).phase = .check w) :
      Step calls s (some t) { s with
        waits := s.waits.set t (if (s.waits.coros t).requested then (s.waits.coros t).ownCancel
          else { s.waits.coros t with phase := w.attachFrom 0 }) }
  | inner (waits : Suspension.State ListId) (h : Inner s.waits waits) :
      Step calls s none { s with waits := waits }
  | load (t : Nat) (c : Ctx α) (w : Wait ListId) (k : Nat) (l : ListId) (p : CheckPc)
      (enqFirst : Bool) (h : s.pcs t = .waiting c w p)
      (hphase : (s.waits.coros t).phase = .look w k) (hplace : w.places[k]? = some (.listed l)) :
      Step calls s (some t) (s.load t c w k l p enqFirst)
  | loadFired (t : Nat) (c : Ctx α) (w : Wait ListId) (k : Nat) (p : CheckPc)
      (h : s.pcs t = .waiting c w p) (hphase : (s.waits.coros t).phase = .look w k)
      (hplace : w.places[k]? = some .sleep) :
      Step calls s (some t) { s with
        waits := s.waits.look t w k (!((s.waits.coros t).sleepers k).timer.fired) }
  | answer (t : Nat) (c : Ctx α) (w : Wait ListId) (p : CheckPc) (start : Nat)
      (h : s.pcs t = .waiting c w p) (hphase : (s.waits.coros t).phase = .running) :
      Step calls s (some t) (s.answer t c w start)
  | peek (t : Nat) (c : Ctx α) (l : ListId) (count : Option Nat) (rest : List (ListId × Option Nat))
      (a : Answer α) (h : s.pcs t = .waking c ((l, count) :: rest) false a) :
      Step calls s (some t) (s.setPc t (if s.waits.lists l = [] then .waking c rest false a
        else .waking c ((l, count) :: rest) true a))
  | wake (t : Nat) (c : Ctx α) (l : ListId) (count : Option Nat) (rest : List (ListId × Option Nat))
      (a : Answer α) (h : s.pcs t = .waking c ((l, count) :: rest) true a) :
      Step calls s (some t) { s.setPc t (.waking c rest false a) with
        waits := s.waits.wake l (count.getD (s.waits.lists l).length) }
  | direct (t : Nat) (c : Ctx α) (h : s.pcs t = .direct c) : Step calls s (some t) (s.direct t c)
  | finalize (t : Nat) (c : Ctx α) (a : Answer α) (k : Nat) (h : s.pcs t = .waking c [] false a)
      (hphase : (s.waits.coros t).phase = .running)
      (htimer : ((s.waits.coros t).sleepers k).timer = .armed ∨
        ((s.waits.coros t).sleepers k).timer = .ended) :
      Step calls s (some t) { s with
        waits := s.waits.set t ((s.waits.coros t).setTimer k .off) }
  | finish (t : Nat) (c : Ctx α) (a : Answer α) (h : s.pcs t = .waking c [] false a)
      (htimers : ∀ k, ((s.waits.coros t).sleepers k).timer = .off) :
      Step calls s (some t) { s.setPc t .idle with
        log := .returned t (s.calls t) c.call a :: s.log }

structure Words.New {α : Type} (w : Words α) : Prop where
  queue : ∀ c, (∃ cap, 2 ≤ cap ∧ (w.channels c).queue = .ring cap ⟨.new, fun _ => .ret .none⟩) ∨
    ∃ size, 2 ≤ size ∧ (w.channels c).queue = .chain size ⟨.new, fun _ => .idle⟩
  open_ : ∀ c, (w.channels c).closed = false
  counts : ∀ m, 0 ≤ w.counts m

/-- The states a program comes to whose coroutines take no step but where `ok` lets them. -/
inductive Runs {α : Type} (calls : Call α → Prop) (ok : State α → Nat → Prop) (w : Words α) :
    State α → Prop where
  | start : Runs calls ok w (.new w)
  | step {s s' : State α} {who : Option Nat} (hs : Runs calls ok w s) (h : Step calls s who s')
      (hok : ∀ t, who = some t → ok s t) : Runs calls ok w s'

theorem Runs.free {α : Type} {calls : Call α → Prop} {w : Words α} {s s' : State α} {who : Option Nat}
    (h : Runs calls (fun _ _ => True) w s) (hstep : Step calls s who s') :
    Runs calls (fun _ _ => True) w s' := h.step hstep fun _ _ => trivial

/-- The next step of coroutine `t` while nobody waits in a list: an access of its attempt, the look
at a list that it is to wake, and the end of its call. -/
def State.go {α : Type} (s : State α) (t : Nat) : State α :=
  match s.pcs t with
  | .trying c k p =>
      match c.call.ops[c.index k]? with
      | some op => s.attempt t c k op p false
      | none => s
  | .waking c (_ :: rest) false a => s.setPc t (.waking c rest false a)
  | .waking c [] false a =>
      { s.setPc t .idle with log := .returned t (s.calls t) c.call a :: s.log }
  | _ => s

def Pc.resting {α : Type} : Pc α → Bool
  | .idle => true
  | _ => false

/-- A run in which nobody has waited for anything; of the coroutines only the first two have made
a call. -/
structure Unhindered {α : Type} (calls : Call α → Prop) (ok : State α → Nat → Prop) (w : Words α)
    (s : State α) : Prop where
  runs : Runs calls ok w s
  waits : s.waits = .new
  idle : ∀ t, 2 ≤ t → s.pcs t = .idle

section Unhindered

variable {α : Type} {calls : Call α → Prop} {ok : State α → Nat → Prop} {w : Words α} {s : State α}
  {t : Nat}

theorem unhindered_new : Unhindered calls ok w (.new w) := ⟨.start, rfl, fun _ _ => rfl⟩

theorem Unhindered.step (h : Unhindered calls ok w s) (ht : t < 2) {s' : State α}
    (hstep : Step calls s (some t) s') (hok : ok s t) (hwaits : s'.waits = s.waits) {pc : Pc α}
    (hpcs : s'.pcs = Function.update s.pcs t pc) : Unhindered calls ok w s' := by
  refine ⟨h.runs.step hstep ?_, hwaits.trans h.waits, fun u hu => ?_⟩
  · rintro _ ⟨⟩
    exact hok
  · rw [hpcs, Function.update_of_ne (by omega)]
    exact h.idle u hu

theorem State.attempt_pcs (s : State α) (t : Nat) (c : Ctx α) (k : Nat) (op : Op α) (p : TryPc)
    (spurious : Bool) : (s.attempt t c k op p spurious).waits = s.waits ∧
      ∃ pc, (s.attempt t c k op p spurious).pcs = Function.update s.pcs t pc := by
  simp only [State.attempt]
  split
  · exact ⟨rfl, _, rfl⟩
  · exact ⟨rfl, _, rfl⟩
  · exact ⟨rfl, _, rfl⟩

theorem Unhindered.go (h : Unhindered calls ok w s) (ht : t < 2)
    (hok : (∀ c, s.pcs t ≠ .direct c) → ok s t) : Unhindered calls ok w (s.go t) := by
  have hfree : ∀ l, s.waits.lists l = [] := fun l => by rw [h.waits]; rfl
  have htimers : ∀ k, ((s.waits.coros t).sleepers k).timer = .off := fun k => by rw [h.waits]; rfl
  unfold State.go
  split
  · rename_i c k p hpc
    split
    · rename_i op hop
      obtain ⟨hwaits, pc, hpcs⟩ := s.attempt_pcs t c k op p false
      exact h.step ht (.attempt t c k op p false hpc hop) (hok (by rw [hpc]; nofun)) hwaits hpcs
    · exact h
  · rename_i c x rest a hpc
    have hstep : Step calls s (some t) _ := .peek t c x.1 x.2 rest a hpc
    rw [if_pos (hfree x.1)] at hstep
    exact h.step ht hstep (hok (by rw [hpc]; nofun)) rfl rfl
  · rename_i c a hpc
    exact h.step ht (.finish t c a hpc htimers) (hok (by rw [hpc]; nofun)) rfl rfl
  · exact h

theorem Unhindered.goes (ht : t < 2) (hok : ∀ s : State α, (∀ c, s.pcs t ≠ .direct c) → ok s t)
    (n : Nat) (h : Unhindered calls ok w s) :
    Unhindered calls ok w ((fun s => s.go t)^[n] s) := by
  induction n generalizing s with
  | zero => exact h
  | succ n ih => exact ih (h.go ht (hok s))

theorem Pc.eq_idle {p : Pc α} (h : p.resting = true) : p = .idle := by
  cases p with
  | idle => rfl
  | _ => cases h

def State.make (s : State α) (t : Nat) (call : Call α) (n : Nat) : State α :=
  (fun s : State α => s.go t)^[n] (s.begin t call 0)

theorem Unhindered.make (h : Unhindered calls ok w s) (ht : t < 2)
    (hok : ∀ s : State α, (∀ c, s.pcs t ≠ .direct c) → ok s t) (call : Call α) (n : Nat)
    (hidle : (s.pcs t).resting = true) (hvalid : call.Valid s.words) (hcalls : calls call) :
    Unhindered calls ok w (s.make t call n) := by
  have hpc := Pc.eq_idle hidle
  exact .goes ht hok n (h.step ht (.begin t call 0 hpc hvalid hcalls)
    (hok s (by rw [hpc]; nofun)) rfl rfl)

end Unhindered

end Uvent.Sync.Primitives
