import Mathlib.Logic.Function.Basic
import Uvent.Lib.LabelledRuns

/-!
# Hazard pointers

`HazardDomain`: threads with a record each, whose slots say what the thread may be using, and
scans that hand to the deleter what is retired and found in no slot.  Every access to an atomic
is one step of the thread that makes it, and so are a section under `orphan_mu_` and what a
scan does with one entry of its list.

An object is known by its address.  `gen` counts how often the object at an address was
deleted, so that an entry of a list and what `protect` returned keep apart the objects that
were at one address; `gone` says that the object at an address is retired and not deleted.
`returned` belongs to the slot that `protect` returned an object from, for as long as the slot
is not written again.  These are only looked at.
-/

namespace Uvent.Reclaim.Hazard

open Uvent.Lib

/-- `CACHELINE_SIZE / sizeof(void*)`. -/
def kSlots : Nat := 8

structure Retired where
  p : Nat
  gen : Nat
  deriving DecidableEq, Repr

/-- `kept` is the front of `retired`, from where a reclaim under way has put what it keeps. -/
structure Record where
  hp : Nat → Option Nat
  active : Bool
  kept : List Retired
  retired : List Retired
  victim : Nat
  returned : Nat → Option Nat

inductive Which where
  | own
  | orphans
  deriving DecidableEq, Repr

/-- Where a thread is in an operation.  A chain of records is the list of what is reached from
a pointer: `next` does not change once a record is published.  `leaving` is a scan of
`release_record`, and `hz` are the hazards that are collected. -/
inductive Pc where
  | idle
  | acquireWalk (rest : List Nat)
  | acquireTry (r : Nat) (rest : List Nat)
  | acquirePush (r : Nat) (h : List Nat)
  | acquireCount
  | protectLoad (a : Nat)
  | protectCheck (a p gen i : Nat)
  | protectPublish (a p : Nat)
  | protectValidate (a p i : Nat)
  | done (result : Option Nat)
  | retireCount
  | collect (which : Which) (leaving : Bool) (hz rest : List Nat)
  | collectSlot (which : Which) (leaving : Bool) (hz : List Nat) (r i : Nat) (rest : List Nat)
  | sift (which : Which) (leaving : Bool) (hz : List Nat)
  | tryLock (leaving : Bool)
  | unlock (leaving : Bool)
  | releaseOrphans
  | releaseSlots (i : Nat)
  deriving DecidableEq, Repr

/-- `tls` is `tls_.rec`. -/
structure Thread where
  pc : Pc
  tls : Option Nat
  deriving DecidableEq, Repr

/-- `src` are the pointers that `protect` reads, which the clients write. -/
structure State where
  head : List Nat
  records : Nat
  nRecords : Nat
  record : Nat → Record
  orphansKept : List Retired
  orphans : List Retired
  orphanMu : Option Nat
  src : Nat → Option Nat
  thread : Nat → Thread
  deleted : List Retired
  gen : Nat → Nat
  gone : Nat → Bool

def Record.new : Record := ⟨fun _ => none, false, [], [], 0, fun _ => none⟩

namespace State

def new : State where
  head := []
  records := 0
  nRecords := 0
  record := fun _ => .new
  orphansKept := []
  orphans := []
  orphanMu := none
  src := fun _ => none
  thread := fun _ => ⟨.idle, none⟩
  deleted := []
  gen := fun _ => 0
  gone := fun _ => false

def goto (s : State) (t : Nat) (pc : Pc) : State :=
  { s with thread := Function.update s.thread t { s.thread t with pc := pc } }

def setRec (s : State) (t : Nat) (pc : Pc) (r : Option Nat) : State :=
  { s with thread := Function.update s.thread t ⟨pc, r⟩ }

def setRecord (s : State) (r : Nat) (x : Record) : State :=
  { s with record := Function.update s.record r x }

def setSlot (s : State) (r i : Nat) (v : Option Nat) : State :=
  s.setRecord r
    { s.record r with
      hp := Function.update (s.record r).hp i v,
      returned := Function.update (s.record r).returned i none }

def returnSlot (s : State) (r i gen : Nat) : State :=
  s.setRecord r
    { s.record r with returned := Function.update (s.record r).returned i (some gen) }

/-- The list of a reclaim for a thread with record `r`: what is kept, and what is left. -/
def list (s : State) (r : Nat) : Which → List Retired × List Retired
  | .own => ((s.record r).kept, (s.record r).retired)
  | .orphans => (s.orphansKept, s.orphans)

def setList (s : State) (r : Nat) (kept rest : List Retired) : Which → State
  | .own => s.setRecord r { s.record r with kept := kept, retired := rest }
  | .orphans => { s with orphansKept := kept, orphans := rest }

def delete (s : State) (x : Retired) : State :=
  { s with
    deleted := x :: s.deleted,
    gen := Function.update s.gen x.p (s.gen x.p + 1),
    gone := Function.update s.gone x.p false }

def retire (s : State) (r p : Nat) : State :=
  { s.setRecord r
      { s.record r with retired := (s.record r).retired ++ [Retired.mk p (s.gen p)] } with
    gone := Function.update s.gone p true }

def orphan (s : State) (r : Nat) : State :=
  { s.setRecord r { s.record r with retired := [] } with
    orphans := s.orphans ++ (s.record r).retired }

/-- `protect` publishes `p` in the next slot of `r`. -/
def publish (s : State) (r p : Nat) : State :=
  s.setRecord r
    { s.record r with
      hp := Function.update (s.record r).hp (s.record r).victim (some p),
      victim := ((s.record r).victim + 1) % kSlots,
      returned := Function.update (s.record r).returned (s.record r).victim none }

def threshold (s : State) : Nat := max 64 (2 * kSlots * s.nRecords)

end State

section Goto

variable {d : State} {t : Nat}

theorem goto_pc (d : State) (t : Nat) (pc : Pc) : ((d.goto t pc).thread t).pc = pc := by
  show (Function.update d.thread t { d.thread t with pc := pc } t).pc = pc
  rw [Function.update_self]

theorem goto_tls (d : State) (t : Nat) (pc : Pc) :
    ((d.goto t pc).thread t).tls = (d.thread t).tls := by
  show (Function.update d.thread t { d.thread t with pc := pc } t).tls = _
  rw [Function.update_self]

theorem goto_goto (d : State) (t : Nat) (pc pc' : Pc) :
    (d.goto t pc).goto t pc' = d.goto t pc' := by
  have hthread : Function.update (Function.update d.thread t { d.thread t with pc := pc }) t
      { Function.update d.thread t { d.thread t with pc := pc } t with pc := pc' } =
        Function.update d.thread t { d.thread t with pc := pc' } := by
    rw [Function.update_self, Function.update_idem]
  exact congrArg (fun threads => { d with thread := threads }) hthread

theorem goto_self {pc : Pc} (hpc : (d.thread t).pc = pc) : d.goto t pc = d := by
  have hthread : Function.update d.thread t { d.thread t with pc := pc } = d.thread := by
    rw [← hpc]
    exact Function.update_eq_self t d.thread
  exact congrArg (fun threads => { d with thread := threads }) hthread

theorem setList_thread (s : State) (r : Nat) (kept rest : List Retired) (which : Which) :
    (s.setList r kept rest which).thread = s.thread := by
  cases which <;> rfl

end Goto

def afterLoad (s : State) (a : Nat) : Pc :=
  match s.src a with
  | none => .done none
  | some p => .protectCheck a p (s.gen p) 0

def afterScan (leaving : Bool) : Pc := if leaving then .releaseOrphans else .idle

/-- What follows a reclaim: the one for the orphans ends with the release of the mutex. -/
def afterReclaim (leaving : Bool) : Which → Pc
  | .own => .tryLock leaving
  | .orphans => .unlock leaving

/-- A load of a source by `protect`, a store to a source, the retirement of an object, or any
other step. -/
inductive Event where
  | load (a : Nat)
  | store (a : Nat) (v : Option Nat)
  | retire (p : Nat)
  | other
  deriving DecidableEq, Repr

inductive Step (s : State) : Nat → Event → State → Prop where
  | store (t a : Nat) (v : Option Nat) :
      Step s t (.store a v) { s with src := Function.update s.src a v }
  | acquire (t : Nat) (pc : (s.thread t).pc = .idle) (unbound : (s.thread t).tls = none) :
      Step s t .other (s.goto t (.acquireWalk s.head))
  | acquireLook (t r : Nat) (rest : List Nat) (pc : (s.thread t).pc = .acquireWalk (r :: rest)) :
      Step s t .other
        (s.goto t (if (s.record r).active then .acquireWalk rest else .acquireTry r rest))
  | acquireTaken (t r : Nat) (rest : List Nat) (pc : (s.thread t).pc = .acquireTry r rest)
      (used : (s.record r).active = true) : Step s t .other (s.goto t (.acquireWalk rest))
  | acquireTake (t r : Nat) (rest : List Nat) (pc : (s.thread t).pc = .acquireTry r rest)
      (free : (s.record r).active = false) :
      Step s t .other
        ((s.setRecord r { s.record r with active := true }).setRec t .idle (some r))
  | acquireNew (t : Nat) (pc : (s.thread t).pc = .acquireWalk []) :
      Step s t .other
        ({ s.setRecord s.records { Record.new with active := true } with
          records := s.records + 1 }.goto t (.acquirePush s.records s.head))
  | acquirePush (t r : Nat) (pc : (s.thread t).pc = .acquirePush r s.head) :
      Step s t .other ({ s with head := r :: s.head }.setRec t .acquireCount (some r))
  | acquireRetry (t r : Nat) (h : List Nat) (pc : (s.thread t).pc = .acquirePush r h) :
      Step s t .other (s.goto t (.acquirePush r s.head))
  | acquireCount (t : Nat) (pc : (s.thread t).pc = .acquireCount) :
      Step s t .other ({ s with nRecords := s.nRecords + 1 }.goto t .idle)
  | protect (t r a : Nat) (pc : (s.thread t).pc = .idle) (bound : (s.thread t).tls = some r) :
      Step s t .other (s.goto t (.protectLoad a))
  | protectLoad (t a : Nat) (pc : (s.thread t).pc = .protectLoad a) :
      Step s t (.load a) (s.goto t (afterLoad s a))
  | protectHit (t r a p gen i : Nat) (pc : (s.thread t).pc = .protectCheck a p gen i)
      (bound : (s.thread t).tls = some r) (more : i < kSlots)
      (hit : (s.record r).hp i = some p) :
      Step s t .other ((s.returnSlot r i gen).goto t (.done (some p)))
  | protectMiss (t r a p gen i : Nat) (pc : (s.thread t).pc = .protectCheck a p gen i)
      (bound : (s.thread t).tls = some r) (more : i < kSlots)
      (miss : (s.record r).hp i ≠ some p) :
      Step s t .other (s.goto t (.protectCheck a p gen (i + 1)))
  | protectFull (t a p gen : Nat) (pc : (s.thread t).pc = .protectCheck a p gen kSlots) :
      Step s t .other (s.goto t (.protectPublish a p))
  | protectPublish (t r a p : Nat) (pc : (s.thread t).pc = .protectPublish a p)
      (bound : (s.thread t).tls = some r) :
      Step s t .other
        ((s.publish r p).goto t (.protectValidate a p (s.record r).victim))
  | protectValidate (t r a p i : Nat) (pc : (s.thread t).pc = .protectValidate a p i)
      (bound : (s.thread t).tls = some r) (again : s.src a = some p) :
      Step s t (.load a) ((s.returnSlot r i (s.gen p)).goto t (.done (some p)))
  | protectAgain (t a p i : Nat) (pc : (s.thread t).pc = .protectValidate a p i)
      (changed : s.src a ≠ some p) : Step s t (.load a) (s.goto t (afterLoad s a))
  | protectReturn (t : Nat) (result : Option Nat) (pc : (s.thread t).pc = .done result) :
      Step s t .other (s.goto t .idle)
  | retire (t r p : Nat) (pc : (s.thread t).pc = .idle) (bound : (s.thread t).tls = some r)
      (once : s.gone p = false) :
      Step s t (.retire p) ((s.retire r p).goto t .retireCount)
  | retireCount (t r : Nat) (pc : (s.thread t).pc = .retireCount)
      (bound : (s.thread t).tls = some r) :
      Step s t .other
        (s.goto t
          (if s.threshold ≤ (s.record r).retired.length then .collect .own false [] s.head
          else .idle))
  | scan (t r : Nat) (pc : (s.thread t).pc = .idle) (bound : (s.thread t).tls = some r) :
      Step s t .other (s.goto t (.collect .own false [] s.head))
  | collect (t r : Nat) (which : Which) (leaving : Bool) (hz rest : List Nat)
      (pc : (s.thread t).pc = .collect which leaving hz (r :: rest)) :
      Step s t .other
        (s.goto t
          (if (s.record r).active then .collectSlot which leaving hz r 0 rest
          else .collect which leaving hz rest))
  | collectSlot (t r i : Nat) (which : Which) (leaving : Bool) (hz rest : List Nat)
      (pc : (s.thread t).pc = .collectSlot which leaving hz r i rest) (more : i < kSlots) :
      Step s t .other
        (s.goto t
          (.collectSlot which leaving (((s.record r).hp i).toList ++ hz) r (i + 1) rest))
  | collectNext (t r : Nat) (which : Which) (leaving : Bool) (hz rest : List Nat)
      (pc : (s.thread t).pc = .collectSlot which leaving hz r kSlots rest) :
      Step s t .other (s.goto t (.collect which leaving hz rest))
  | collectEnd (t : Nat) (which : Which) (leaving : Bool) (hz : List Nat)
      (pc : (s.thread t).pc = .collect which leaving hz []) :
      Step s t .other (s.goto t (.sift which leaving hz))
  | siftKeep (t r : Nat) (which : Which) (leaving : Bool) (hz : List Nat) (x : Retired)
      (kept rest : List Retired) (pc : (s.thread t).pc = .sift which leaving hz)
      (bound : (s.thread t).tls = some r) (next : s.list r which = (kept, x :: rest))
      (hazard : x.p ∈ hz) : Step s t .other (s.setList r (kept ++ [x]) rest which)
  | siftDelete (t r : Nat) (which : Which) (leaving : Bool) (hz : List Nat) (x : Retired)
      (kept rest : List Retired) (pc : (s.thread t).pc = .sift which leaving hz)
      (bound : (s.thread t).tls = some r) (next : s.list r which = (kept, x :: rest))
      (free : x.p ∉ hz) : Step s t .other ((s.setList r kept rest which).delete x)
  | siftEnd (t r : Nat) (which : Which) (leaving : Bool) (hz : List Nat) (kept : List Retired)
      (pc : (s.thread t).pc = .sift which leaving hz) (bound : (s.thread t).tls = some r)
      (finished : s.list r which = (kept, [])) :
      Step s t .other ((s.setList r [] kept which).goto t (afterReclaim leaving which))
  | tryLockFail (t : Nat) (leaving : Bool) (pc : (s.thread t).pc = .tryLock leaving) :
      Step s t .other (s.goto t (afterScan leaving))
  | tryLock (t : Nat) (leaving : Bool) (pc : (s.thread t).pc = .tryLock leaving)
      (unlocked : s.orphanMu = none) :
      Step s t .other
        ({ s with orphanMu := some t }.goto t
          (if s.orphans = [] then .unlock leaving else .collect .orphans leaving [] s.head))
  | unlock (t : Nat) (leaving : Bool) (pc : (s.thread t).pc = .unlock leaving) :
      Step s t .other ({ s with orphanMu := none }.goto t (afterScan leaving))
  | release (t r : Nat) (pc : (s.thread t).pc = .idle) (bound : (s.thread t).tls = some r) :
      Step s t .other (s.goto t (.collect .own true [] s.head))
  | releaseNone (t r : Nat) (pc : (s.thread t).pc = .releaseOrphans)
      (bound : (s.thread t).tls = some r) (empty : (s.record r).retired = []) :
      Step s t .other (s.goto t (.releaseSlots 0))
  | releaseOrphans (t r : Nat) (pc : (s.thread t).pc = .releaseOrphans)
      (bound : (s.thread t).tls = some r) (left : (s.record r).retired ≠ [])
      (unlocked : s.orphanMu = none) :
      Step s t .other ((s.orphan r).goto t (.releaseSlots 0))
  | releaseSlot (t r i : Nat) (pc : (s.thread t).pc = .releaseSlots i)
      (bound : (s.thread t).tls = some r) (more : i < kSlots) :
      Step s t .other ((s.setSlot r i none).goto t (.releaseSlots (i + 1)))
  | releaseRecord (t r : Nat) (pc : (s.thread t).pc = .releaseSlots kSlots)
      (bound : (s.thread t).tls = some r) :
      Step s t .other
        ((s.setRecord r { s.record r with active := false }).setRec t .idle none)

abbrev Runs (ok : State → Nat → Event → Prop) : State → Prop :=
  ThreadRuns (· = .new) Step ok

/-- An object is retired when no source equals it any more, and no source is made to equal a
retired object. -/
def Disciplined (s : State) (_t : Nat) : Event → Prop
  | .retire p => ∀ a, s.src a ≠ some p
  | .store _ v => ∀ p, v = some p → s.gone p = false
  | _ => True

/-- What a slot was returned for is not deleted, and what is retired is deleted once. -/
structure Protected (s : State) : Prop where
  held : ∀ r i p g, (s.record r).hp i = some p → (s.record r).returned i = some g →
    ⟨p, g⟩ ∉ s.deleted
  once : s.deleted.Nodup

end Uvent.Reclaim.Hazard
