import Mathlib.Logic.Function.Basic
import Uvent.Lib.CallStack

/-!
# The frames of a task

One task on its worker in a `UVENT_ENABLE_REUSEADDR` build, where a coroutine that was woken
goes back to the worker it is of.  Its coroutines await one another: a lazy one runs when it is
awaited, an eager one (`AwaitableIOFrame`) from its call on, inside its caller, which then
awaits it.  A coroutine that ends transfers to the one that awaits it, or puts it into the run
queue where the stack is too deep; its frame is destroyed by the loop of the worker.

The model has the memory of the frames, so that an access to a destroyed frame is seen.  What
the code of the coroutines does is a parameter, and so is where the stack is too deep.
-/

namespace Uvent.Tasks.Coroutines

open Uvent.Lib

abbrev Handle := Nat

/-- What the code of a coroutine does next: it ends, awaits something that is not a coroutine,
or calls a coroutine and awaits it. -/
inductive Act (S E V W A : Type) where
  | coReturn (v : V)
  | throws (e : E)
  | wait (w : W) (next : A → S)
  | call (eager : Bool) (callee : S) (next : Except E V → S)

def Act.plain {S E V W A : Type} : Act S E V W A → CallStack.Act S (Except E V) W A
  | .coReturn v => .result (.ok v)
  | .throws e => .result (.error e)
  | .wait w next => .wait w next
  | .call _ callee next => .call callee next

/-- Where a coroutine is: at its code, suspended, inside the call of an eager coroutine, in
`co_await` of a coroutine or behind it, at the `get` of its result, or at its final
suspension. -/
inductive Pc (S E V W A : Type) where
  | runs (s : S)
  | suspended (w : W) (next : A → S)
  | starting (child : Handle) (next : Except E V → S)
  | awaiting (child : Handle) (next : Except E V → S)
  | final (result : Except E V)

/-- `task` is whether `task_` is set. -/
structure Frame (S E V W A : Type) where
  pc : Pc S E V W A
  prev : Option Handle
  next : Option Handle
  pendingDestroy : Option Handle
  task : Bool

def Frame.new {S E V W A : Type} (s : S) : Frame S E V W A := ⟨.runs s, none, none, none, false⟩

/-- `callers` are the coroutines inside the call of an eager one, innermost first, `resumed` is
the coroutine the loop has resumed and `pending` what it took from that before.  `stored` is
the result in the `TaskState`.  The last two fields are not of the program: what was awaited,
with the answers, and whether memory that is not a live frame was accessed. -/
structure State (S E V W A : Type) where
  frames : Handle → Frame S E V W A
  alive : Handle → Bool
  fresh : Handle
  running : Option Handle
  callers : List Handle
  resumed : Option Handle
  pending : Option Handle
  q : List Handle
  inbox : List Handle
  qc : List Handle
  stored : Option (Except E V)
  log : List (W × A)
  faults : Bool

namespace State

variable {S E V W A : Type}

def spawn (root : S) : State S E V W A :=
  { frames := fun _ => { Frame.new root with task := true }
    alive := fun h => decide (h = 0)
    fresh := 1
    running := none
    callers := []
    resumed := none
    pending := none
    q := []
    inbox := [0]
    qc := []
    stored := none
    log := []
    faults := false }

variable (s : State S E V W A)

def touch (h : Handle) : State S E V W A := { s with faults := s.faults || !s.alive h }

def modify (h : Handle) (f : Frame S E V W A → Frame S E V W A) : State S E V W A :=
  { s.touch h with frames := Function.update s.frames h (f (s.frames h)) }

def goto (h : Handle) (pc : Pc S E V W A) : State S E V W A :=
  s.modify h fun f => { f with pc := pc }

def create (callee : S) : State S E V W A :=
  { s with
    frames := Function.update s.frames s.fresh (.new callee)
    alive := Function.update s.alive s.fresh true
    fresh := s.fresh + 1 }

/-- `Awaitable::await_suspend` up to the transfer. -/
def link (h child : Handle) (next : Except E V → S) : State S E V W A :=
  (s.modify h fun f => { f with pc := .awaiting child next, next := some child }).modify child
    fun f => { f with prev := some h }

/-- `co_await` of a lazy coroutine that is called by `h`. -/
def callLazy (deep : Bool) (h : Handle) (callee : S) (next : Except E V → S) : State S E V W A :=
  let s' := (s.create callee).link h s.fresh next
  if deep then { s' with q := s.q ++ [s.fresh], running := none }
  else { s' with running := some s.fresh }

def callEager (h : Handle) (callee : S) (next : Except E V → S) : State S E V W A :=
  { (s.create callee).goto h (.starting s.fresh next) with
    running := some s.fresh
    callers := h :: s.callers }

/-- The result of `h` is there; `complete` of the task. -/
def finish (h : Handle) (result : Except E V) : State S E V W A :=
  { s.modify h fun f => { f with pc := .final result, task := false } with
    stored := if (s.frames h).task then some result else s.stored }

def finalTransfer (deep : Bool) (h : Handle) : State S E V W A :=
  match (s.frames h).prev with
  | some p =>
      let s' := (s.modify h fun f => { f with prev := none }).modify p fun f =>
        { f with next := none, pendingDestroy := if deep then some h else f.pendingDestroy }
      if deep then { s' with q := s.q ++ [p], running := none }
      else { s' with qc := s.qc ++ [h], running := some p }
  | none => { s.touch h with qc := s.qc ++ [h], running := none }

section Equations

variable {s : State S E V W A} {h p child : Handle} {next : Except E V → S}

theorem finalTransfer_none (deep : Bool) (hprev : (s.frames h).prev = none) :
    s.finalTransfer deep h = { s.touch h with qc := s.qc ++ [h], running := none } := by
  rw [finalTransfer, hprev]

theorem finalTransfer_some (hprev : (s.frames h).prev = some p) :
    s.finalTransfer false h =
      { (s.modify h fun f => { f with prev := none }).modify p fun f => { f with next := none } with
        qc := s.qc ++ [h]
        running := some p } := by
  rw [finalTransfer, hprev]
  rfl

theorem finalTransfer_deep (hprev : (s.frames h).prev = some p) :
    s.finalTransfer true h =
      { (s.modify h fun f => { f with prev := none }).modify p fun f =>
          { f with next := none, pendingDestroy := some h } with
        q := s.q ++ [p]
        running := none } := by
  rw [finalTransfer, hprev]
  rfl

end Equations

/-- `await_resume` of `h`, which reads the result of `child`. -/
def get (h child : Handle) (next : Except E V → S) : State S E V W A :=
  match (s.frames child).pc with
  | .final result => (s.touch child).goto h (.runs (next result))
  | _ => { s with faults := true }

def run (code : S → Act S E V W A) (deep : Bool) (h : Handle) : State S E V W A :=
  match (s.frames h).pc with
  | .runs st =>
      match code st with
      | .coReturn v => (s.finish h (.ok v)).finalTransfer deep h
      | .throws e => (s.finish h (.error e)).finalTransfer deep h
      | .wait w next => { s.goto h (.suspended w next) with running := none }
      | .call false callee next => s.callLazy deep h callee next
      | .call true callee next => s.callEager h callee next
  | .awaiting child next => s.get h child next
  | _ => { s with faults := true }

def ready (h : Handle) (w : W) (next : A → S) (a : A) : State S E V W A :=
  { s.goto h (.runs (next a)) with log := s.log ++ [(w, a)] }

/-- Control comes back to `h` from the eager coroutine it has called, which it awaits now. -/
def back (h : Handle) (callers : List Handle) : State S E V W A :=
  match (s.frames h).pc with
  | .starting child next =>
      match (s.frames child).pc with
      | .final _ =>
          { (s.touch child).goto h (.awaiting child next) with
            running := some h
            callers := callers }
      | _ => { s.link h child next with callers := callers }
  | _ => { s with faults := true }

/-- The loop takes `h` out of the run queue and resumes it unless it is `done`. -/
def resume (h : Handle) (rest : List Handle) : State S E V W A :=
  match (s.frames h).pc with
  | .final _ => { s.touch h with q := rest }
  | _ =>
      { s.modify h fun f => { f with pendingDestroy := none } with
        q := rest
        running := some h
        resumed := some h
        pending := (s.frames h).pendingDestroy }

def endResume : State S E V W A :=
  { s with resumed := none, pending := none, qc := s.qc ++ s.pending.toList }

def destroy (h : Handle) (rest : List Handle) : State S E V W A :=
  { s.touch h with alive := Function.update s.alive h false, qc := rest }

/-- What `h` awaits is there, and `h` goes into the run queue, or into the inbox if another
thread does that. -/
def wake (own : Bool) (h : Handle) (w : W) (next : A → S) (a : A) : State S E V W A :=
  let s' := s.ready h w next a
  if own then { s' with q := s.q ++ [h] } else { s' with inbox := s.inbox ++ [h] }

def takeInbox (h : Handle) (rest : List Handle) : State S E V W A :=
  { s with q := s.q ++ [h], inbox := rest }

end State

variable {S E V W A : Type}

/-- A step of the worker, or of whoever wakes a coroutine.  The loop resumes, destroys and looks
into its inbox while no coroutine is resumed. -/
inductive Step (code : S → Act S E V W A) (deep : State S E V W A → Bool) (s : State S E V W A) :
    State S E V W A → Prop where
  | resume (h : Handle) (rest : List Handle) (hloop : s.resumed = none) (hq : s.q = h :: rest) :
      Step code deep s (s.resume h rest)
  | run (h : Handle) (hrunning : s.running = some h) : Step code deep s (s.run code (deep s) h)
  | ready (h : Handle) (st : S) (w : W) (next : A → S) (a : A) (hrunning : s.running = some h)
      (hpc : (s.frames h).pc = .runs st) (hcode : code st = .wait w next) :
      Step code deep s (s.ready h w next a)
  | back (h : Handle) (rest : List Handle) (hrunning : s.running = none)
      (hcallers : s.callers = h :: rest) : Step code deep s (s.back h rest)
  | endResume (h : Handle) (hresumed : s.resumed = some h) (hrunning : s.running = none)
      (hcallers : s.callers = []) : Step code deep s s.endResume
  | destroy (h : Handle) (rest : List Handle) (hloop : s.resumed = none) (hqc : s.qc = h :: rest) :
      Step code deep s (s.destroy h rest)
  | wake (own : Bool) (h : Handle) (w : W) (next : A → S) (a : A)
      (hpc : (s.frames h).pc = .suspended w next) : Step code deep s (s.wake own h w next a)
  | takeInbox (h : Handle) (rest : List Handle) (hloop : s.resumed = none)
      (hinbox : s.inbox = h :: rest) : Step code deep s (s.takeInbox h rest)

/-- The states a task comes to that is spawned with `root`. -/
inductive Runs (code : S → Act S E V W A) (deep : State S E V W A → Bool) (root : S) :
    State S E V W A → Prop where
  | start : Runs code deep root (.spawn root)
  | step {s s' : State S E V W A} (h : Runs code deep root s) (hstep : Step code deep s s') :
      Runs code deep root s'

end Uvent.Tasks.Coroutines
