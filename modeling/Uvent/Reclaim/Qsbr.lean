import Mathlib.Algebra.Group.Nat.Defs
import Mathlib.Logic.Function.Basic
import Uvent.Lib.LabelledRuns

/-!
# Quiescent-state based reclamation

`QSBR`: threads that announce an epoch while they are inside an `enter`/`leave` section, and
objects that are deleted in `quiesce_tick` once every announced epoch is above theirs.  Every
access to an atomic is one step of the thread that makes it, and so is a section under
`orphan_mu_`.

`guarded`, `retiredAt`, `stamp` and `clock` are only looked at: they say which threads were
inside when an object was retired and have not left since, and in which order and at which
epoch objects were retired.  The deleters retire nothing.
-/

namespace Uvent.Reclaim.Qsbr

open Uvent.Lib

def epochs : Nat := 2 ^ 64

/-- `std::numeric_limits<uint64_t>::max()`. -/
def maxEpoch : Nat := epochs - 1

structure ThreadState where
  epoch : Nat
  active : Bool
  inUse : Bool
  deriving DecidableEq, Repr

structure Retired where
  p : Nat
  epoch : Nat
  deriving DecidableEq, Repr

/-- Which call of `min_active_epoch` is made, the one for `safe` with the time it began. -/
inductive Scan where
  | first
  | safe (began : Nat)
  deriving DecidableEq, Repr

/-- Where a thread is in an operation.  A chain of `ThreadState`s is the list of what is
reached from a pointer: `next` does not change once a state is published. -/
inductive Pc where
  | idle
  | attachWalk (rest : List Nat)
  | attachTaken (r : Nat)
  | attachPush (r : Nat) (h : List Nat)
  | detachOrphans
  | detachRelease
  | enterEpoch (e : Nat)
  | enterActive
  | scan (which : Scan) (m : Nat) (rest : List Nat)
  | scanActive (which : Scan) (m r : Nat) (rest : List Nat)
  | scanEpoch (which : Scan) (m r : Nat) (rest : List Nat)
  | compare (minEpoch : Nat)
  | advance
  | rescan
  | sweep (safe began : Nat) (kept : List Retired)
  | countOrphans (safe began : Nat)
  | adopt (safe began : Nat)
  | dispose (adopted : List Retired)
  deriving DecidableEq, Repr

/-- `retired` is `retired_tls_`, and what is left of it while it is swept. -/
structure Thread where
  pc : Pc
  tls : Option Nat
  retired : List Retired
  inside : Bool
  deriving DecidableEq, Repr

structure State where
  head : List Nat
  records : Nat
  record : Nat → ThreadState
  globalEpoch : Nat
  orphans : List Retired
  orphanCount : Nat
  thread : Nat → Thread
  deleted : List Nat
  guarded : Nat → Nat → Bool
  retiredAt : Nat → Option Nat
  stamp : Nat → Nat
  clock : Nat

namespace State

def new : State where
  head := []
  records := 0
  record := fun _ => ⟨0, false, false⟩
  globalEpoch := 1
  orphans := []
  orphanCount := 0
  thread := fun _ => ⟨.idle, none, [], false⟩
  deleted := []
  guarded := fun _ _ => false
  retiredAt := fun _ => none
  stamp := fun _ => 0
  clock := 0

def setThread (s : State) (t : Nat) (th : Thread) : State :=
  { s with thread := Function.update s.thread t th }

def goto (s : State) (t : Nat) (pc : Pc) : State := s.setThread t { s.thread t with pc := pc }

def setRecord (s : State) (r : Nat) (x : ThreadState) : State :=
  { s with record := Function.update s.record r x }

/-- `active.store(false)` by thread `t`, which ends the section it is in. -/
def deactivate (s : State) (t r : Nat) : State :=
  { s.setRecord r { s.record r with active := false } with
    guarded := fun p t' => if t' = t then false else s.guarded p t' }

def retire (s : State) (t p : Nat) : State :=
  { s with
    retiredAt := Function.update s.retiredAt p (some s.clock),
    stamp := Function.update s.stamp p s.globalEpoch,
    guarded := Function.update s.guarded p fun t' => (s.thread t').inside,
    clock := s.clock + 1 }.setThread t
    { s.thread t with retired := (s.thread t).retired ++ [Retired.mk p s.globalEpoch] }

/-- What `min_active_epoch` returns when its walk ends with `m`. -/
def minActive (s : State) (m : Nat) : Nat := if m = maxEpoch then s.globalEpoch else m

end State

/-- Which access of which operation a step is, as far as it is told apart: the first and the
last of `enter`, `leave`, `retire`, the increment of `global_epoch_`, and the adoption of orphans
by a bound whose scan began at some time. -/
inductive Event where
  | enter
  | activate
  | leave
  | retire (p : Nat)
  | advance
  | adopt (safe began : Nat)
  | other
  deriving DecidableEq, Repr

inductive Step (s : State) : Nat → Event → State → Prop where
  | attach (t : Nat) (pc : (s.thread t).pc = .idle) (fresh : (s.thread t).tls = none) :
      Step s t .other (s.goto t (.attachWalk s.head))
  | attachTry (t r : Nat) (rest : List Nat) (pc : (s.thread t).pc = .attachWalk (r :: rest))
      (used : (s.record r).inUse = true) : Step s t .other (s.goto t (.attachWalk rest))
  | attachTake (t r : Nat) (rest : List Nat) (pc : (s.thread t).pc = .attachWalk (r :: rest))
      (free : (s.record r).inUse = false) :
      Step s t .other ((s.setRecord r { s.record r with inUse := true }).goto t (.attachTaken r))
  | attachClear (t r : Nat) (pc : (s.thread t).pc = .attachTaken r) :
      Step s t .other
        ((s.setRecord r { s.record r with active := false }).setThread t
          { s.thread t with pc := .idle, tls := some r })
  | attachNew (t : Nat) (pc : (s.thread t).pc = .attachWalk []) :
      Step s t .other
        ({ s.setRecord s.records ⟨0, false, true⟩ with records := s.records + 1 }.goto t
          (.attachPush s.records s.head))
  | attachPush (t r : Nat) (pc : (s.thread t).pc = .attachPush r s.head) :
      Step s t .other
        ({ s with head := r :: s.head }.setThread t
          { s.thread t with pc := .idle, tls := some r })
  | attachRetry (t r : Nat) (h : List Nat) (pc : (s.thread t).pc = .attachPush r h) :
      Step s t .other (s.goto t (.attachPush r s.head))
  | detach (t r : Nat) (pc : (s.thread t).pc = .idle) (tls : (s.thread t).tls = some r) :
      Step s t .other
        ((s.deactivate t r).setThread t { s.thread t with pc := .detachOrphans, inside := false })
  | detachOrphans (t : Nat) (pc : (s.thread t).pc = .detachOrphans) :
      Step s t .other
        (if (s.thread t).retired = [] then s.goto t .detachRelease
        else
          { s with
            orphans := s.orphans ++ (s.thread t).retired,
            orphanCount := (s.orphans ++ (s.thread t).retired).length }.setThread t
            { s.thread t with pc := .detachRelease, retired := [] })
  | detachRelease (t r : Nat) (pc : (s.thread t).pc = .detachRelease)
      (tls : (s.thread t).tls = some r) :
      Step s t .other
        ((s.setRecord r { s.record r with inUse := false }).setThread t
          { s.thread t with pc := .idle, tls := none })
  | enter (t r : Nat) (pc : (s.thread t).pc = .idle) (tls : (s.thread t).tls = some r)
      (outside : (s.thread t).inside = false) :
      Step s t .enter (s.goto t (.enterEpoch s.globalEpoch))
  | enterEpoch (t r e : Nat) (pc : (s.thread t).pc = .enterEpoch e)
      (tls : (s.thread t).tls = some r) :
      Step s t .other ((s.setRecord r { s.record r with epoch := e }).goto t .enterActive)
  | enterActive (t r : Nat) (pc : (s.thread t).pc = .enterActive)
      (tls : (s.thread t).tls = some r) :
      Step s t .activate
        ((s.setRecord r { s.record r with active := true }).setThread t
          { s.thread t with pc := .idle, inside := true })
  | leave (t r : Nat) (pc : (s.thread t).pc = .idle) (tls : (s.thread t).tls = some r) :
      Step s t .leave ((s.deactivate t r).setThread t { s.thread t with inside := false })
  | retire (t p : Nat) (pc : (s.thread t).pc = .idle) (fresh : s.retiredAt p = none) :
      Step s t (.retire p) (s.retire t p)
  | tick (t : Nat) (pc : (s.thread t).pc = .idle) :
      Step s t .other (s.goto t (.scan .first maxEpoch s.head))
  | scanInUse (t m r : Nat) (which : Scan) (rest : List Nat)
      (pc : (s.thread t).pc = .scan which m (r :: rest)) :
      Step s t .other
        (s.goto t (if (s.record r).inUse then .scanActive which m r rest else .scan which m rest))
  | scanActive (t m r : Nat) (which : Scan) (rest : List Nat)
      (pc : (s.thread t).pc = .scanActive which m r rest) :
      Step s t .other
        (s.goto t (if (s.record r).active then .scanEpoch which m r rest else .scan which m rest))
  | scanEpoch (t m r : Nat) (which : Scan) (rest : List Nat)
      (pc : (s.thread t).pc = .scanEpoch which m r rest) :
      Step s t .other
        (s.goto t (.scan which (if (s.record r).epoch < m then (s.record r).epoch else m) rest))
  | scanFirst (t m : Nat) (pc : (s.thread t).pc = .scan .first m []) :
      Step s t .other (s.goto t (.compare (s.minActive m)))
  | compare (t e : Nat) (pc : (s.thread t).pc = .compare e) :
      Step s t .other (s.goto t (if e = s.globalEpoch then .advance else .rescan))
  | advance (t : Nat) (pc : (s.thread t).pc = .advance) :
      Step s t .advance
        ({ s with globalEpoch := (s.globalEpoch + 1) % epochs }.goto t .rescan)
  | rescan (t : Nat) (pc : (s.thread t).pc = .rescan) :
      Step s t .other (s.goto t (.scan (.safe s.clock) maxEpoch s.head))
  | scanSafe (t m began : Nat) (pc : (s.thread t).pc = .scan (.safe began) m []) :
      Step s t .other (s.goto t (.sweep (s.minActive m) began []))
  | sweepDelete (t safe began : Nat) (kept rest : List Retired) (x : Retired)
      (pc : (s.thread t).pc = .sweep safe began kept) (next : (s.thread t).retired = x :: rest)
      (old : x.epoch < safe) :
      Step s t .other
        ({ s with deleted := x.p :: s.deleted }.setThread t { s.thread t with retired := rest })
  | sweepKeep (t safe began : Nat) (kept rest : List Retired) (x : Retired)
      (pc : (s.thread t).pc = .sweep safe began kept) (next : (s.thread t).retired = x :: rest)
      (young : safe ≤ x.epoch) :
      Step s t .other
        (s.setThread t { s.thread t with pc := .sweep safe began (kept ++ [x]), retired := rest })
  | sweepEnd (t safe began : Nat) (kept : List Retired)
      (pc : (s.thread t).pc = .sweep safe began kept) (none : (s.thread t).retired = []) :
      Step s t .other
        (s.setThread t { s.thread t with pc := .countOrphans safe began, retired := kept })
  | countOrphans (t safe began : Nat) (pc : (s.thread t).pc = .countOrphans safe began) :
      Step s t .other (s.goto t (if s.orphanCount ≠ 0 then .adopt safe began else .idle))
  | adopt (t safe began : Nat) (pc : (s.thread t).pc = .adopt safe began) :
      Step s t (.adopt safe began)
        ({ s with
          orphans := s.orphans.filter fun r : Retired => decide (safe ≤ r.epoch),
          orphanCount := (s.orphans.filter fun r : Retired => decide (safe ≤ r.epoch)).length }.goto t
          (.dispose (s.orphans.filter fun r : Retired => decide (r.epoch < safe))))
  | dispose (t : Nat) (x : Retired) (rest : List Retired)
      (pc : (s.thread t).pc = .dispose (x :: rest)) :
      Step s t .other ({ s with deleted := x.p :: s.deleted }.goto t (.dispose rest))
  | disposeEnd (t : Nat) (pc : (s.thread t).pc = .dispose []) :
      Step s t .other (s.goto t .idle)

abbrev Runs (ok : State → Event → Prop) : State → Prop :=
  ThreadRuns (· = .new) Step fun s _ e => ok s e

/-- The epoch does not wrap around, and every orphan below the bound of a tick was retired
before the tick began to compute that bound. -/
def Timely (s : State) : Event → Prop
  | .advance => s.globalEpoch + 1 < epochs
  | .adopt safe began =>
      ∀ r ∈ s.orphans, r.epoch < safe → ∀ n, s.retiredAt r.p = some n → n < began
  | _ => True

structure Graceful (s : State) : Prop where
  left : ∀ p ∈ s.deleted, ∀ t, s.guarded p t = false
  once : s.deleted.Nodup

end Uvent.Reclaim.Qsbr
