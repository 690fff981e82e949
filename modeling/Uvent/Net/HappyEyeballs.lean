import Mathlib.Algebra.Group.Nat.Defs
import Mathlib.Logic.Function.Basic

/-!
# Happy Eyeballs

The race of `connect_happy` and `connect_happy_addrs`: two resolvers, the attempts, the pacer
and the parent share an `HEState`.  Every section under its mutex is one step, and so is what a
coroutine does between two of them.  An attempt is known by the index at which it was launched.

Only looked at are how the attempts ended, which sockets were shut down, the addresses that
attempts were launched with and those that the race was given, and how often a winner was
stored and the parent resumed.
-/

namespace Uvent.Net.HappyEyeballs

inductive ConnectError where
  | getAddrInfoFailed
  | socketCreationFailed
  | connectFailed
  | invalidAddressFamily
  | invalidSockType
  | fcntlFailed
  | epollAddFailed
  | alreadyConnected
  | invalidHostname
  | timeout
  | cancelled
  | unknown
  deriving DecidableEq, Repr

/-- `wake` says that the coroutine has the handle of the parent in `to_wake`. -/
inductive Attempt where
  | absent
  | spawned
  | connecting
  | finishing (lost early wake : Bool)
  | ended
  deriving DecidableEq, Repr

inductive Pacer where
  | sleeping
  | launching
  | ended
  deriving DecidableEq, Repr

/-- `found` are the addresses of the answer, which are not in the list before `applying` is
over. -/
inductive Resolver (Addr : Type) where
  | resolving
  | answered (found : List Addr)
  | holding (found : List Addr)
  | applying (found : List Addr)
  | kicking (wake : Bool)
  | launching (wake : Bool)
  | waking (wake : Bool)
  | ended
  deriving DecidableEq, Repr

inductive Parent where
  | ready
  | suspending
  | suspended
  | scheduled
  | resumed
  | returned (res : Except ConnectError Nat)

structure State (Addr : Type) where
  done : Bool
  parentWaiting : Bool
  addrs : List Addr
  maxAttempts : Nat
  nextIdx : Nat
  finished : Nat
  resolvesPending : Nat
  v6Resolved : Bool
  winner : Option Nat
  lastError : Option ConnectError
  parent : Parent
  attempt : Nat → Attempt
  resolver : Bool → Resolver Addr
  pacer : Pacer
  outcome : Nat → Option (Option ConnectError)
  shut : Nat → Bool
  launched : List Addr
  offered : List Addr
  stored : Nat
  resumes : Nat

variable {Addr : Type}

/-- The order in which `weave_tail` comes to the elements of its two lists. -/
def interleave : List Addr → List Addr → List Addr
  | [], second => second
  | a :: first, [] => a :: first
  | a :: first, b :: second => a :: b :: interleave first second

def sizeMax : Nat := 2 ^ 64 - 1

namespace State

def decided (s : State Addr) : Bool :=
  s.done || (s.resolvesPending == 0 && s.nextIdx == s.addrs.length &&
    s.finished == s.addrs.length)

def setAttempt (s : State Addr) (i : Nat) (a : Attempt) : State Addr :=
  { s with attempt := Function.update s.attempt i a }

def setResolver (s : State Addr) (v6 : Bool) (r : Resolver Addr) : State Addr :=
  { s with resolver := Function.update s.resolver v6 r }

def takes (s : State Addr) : Bool := s.decided && s.parentWaiting

def takeParent (s : State Addr) : State Addr :=
  { s with parentWaiting := s.parentWaiting && !s.decided }

def resumeParent (s : State Addr) : State Addr :=
  { s with parent := .scheduled, resumes := s.resumes + 1 }

def launchNext (s : State Addr) : State Addr :=
  if s.done || decide (s.addrs.length ≤ s.nextIdx) then s
  else
    { s with
      nextIdx := s.nextIdx + 1,
      attempt := Function.update s.attempt s.nextIdx .spawned,
      launched := s.launched ++ s.addrs[s.nextIdx]?.toList }

/-- The end of `he_attempt`, after `++finished`: the connection is made, or it failed. -/
def connected (s : State Addr) (i : Nat) : State Addr :=
  if s.done then s
  else { s with done := true, winner := some i, stored := s.stored + 1 }

def weaveTail (s : State Addr) (found : List Addr) (foundFirst : Bool) : State Addr :=
  let tail := s.addrs.drop s.nextIdx
  let cap := if s.maxAttempts ≠ 0 then max s.maxAttempts s.nextIdx else sizeMax
  let first := if foundFirst then found else tail
  let second := if foundFirst then tail else found
  { s with
    addrs := (interleave first second).foldl
      (fun addrs a => if addrs.length < cap then addrs ++ [a] else addrs)
      (s.addrs.take s.nextIdx) }

/-- The section of `he_resolve` in which an answer is applied, up to `take_parent_if_decided`. -/
def applyAnswer (s : State Addr) (v6 : Bool) (found : List Addr) : State Addr :=
  let s' :=
    { s with
      v6Resolved := s.v6Resolved || v6,
      resolvesPending := s.resolvesPending - 1 }
  if !s.done && !found.isEmpty then s'.weaveTail found v6 else s'

def result (s : State Addr) (resolved : Bool) : Except ConnectError Nat :=
  match s.winner with
  | some i => .ok i
  | none =>
      if resolved && s.addrs.isEmpty then .error .getAddrInfoFailed
      else .error (s.lastError.getD .connectFailed)

def blank (addrs : List Addr) (maxAttempts : Nat) : State Addr where
  done := false
  parentWaiting := false
  addrs := addrs
  maxAttempts := maxAttempts
  nextIdx := 0
  finished := 0
  resolvesPending := 0
  v6Resolved := false
  winner := none
  lastError := none
  parent := .ready
  attempt := fun _ => .absent
  resolver := fun _ => .ended
  pacer := .ended
  outcome := fun _ => none
  shut := fun _ => false
  launched := []
  offered := addrs
  stored := 0
  resumes := 0

def connectHappy (maxAttempts : Nat) : State Addr :=
  { blank [] maxAttempts with
    resolvesPending := 2, resolver := fun _ => .resolving, pacer := .sleeping }

/-- `connect_happy_addrs` when it comes to its awaiter; without addresses it returns at once. -/
def connectHappyAddrs (addrs : List Addr) (maxAttempts : Nat) : State Addr :=
  if addrs.isEmpty then { blank [] maxAttempts with parent := .returned (.error .getAddrInfoFailed) }
  else
    let listed :=
      if 0 < maxAttempts ∧ maxAttempts < addrs.length then addrs.take maxAttempts else addrs
    { (blank listed maxAttempts).launchNext with
      pacer := if 1 < listed.length then .sleeping else .ended, offered := addrs }

end State

/-- `resolved` tells `connect_happy` from `connect_happy_addrs`, and `delayed` says that
`resolution_delay` is positive. -/
inductive Step (resolved delayed : Bool) (s : State Addr) : State Addr → Prop where
  -- `he_attempt`
  | attemptSkip (i : Nat) (pc : s.attempt i = .spawned) (done : s.done = true) :
      Step resolved delayed s
        ({ s with finished := s.finished + 1 }.takeParent.setAttempt i
          (.finishing false false { s with finished := s.finished + 1 }.takes))
  | attemptConnect (i : Nat) (pc : s.attempt i = .spawned) (racing : s.done = false) :
      Step resolved delayed s (s.setAttempt i .connecting)
  | attemptOk (i : Nat) (pc : s.attempt i = .connecting) :
      Step resolved delayed s
        ({ { s with finished := s.finished + 1 }.connected i with
            outcome := Function.update s.outcome i (some none) }.takeParent.setAttempt i
          (.finishing s.done false ({ s with finished := s.finished + 1 }.connected i).takes))
  | attemptFail (i : Nat) (error : ConnectError) (pc : s.attempt i = .connecting) :
      Step resolved delayed s
        ({ s with
            finished := s.finished + 1, lastError := some error,
            outcome := Function.update s.outcome i (some (some error)) }.takeParent.setAttempt i
          (.finishing false (!s.done && decide (s.nextIdx < s.addrs.length))
            { s with finished := s.finished + 1 }.takes))
  | attemptShutdown (i : Nat) (early wake : Bool) (pc : s.attempt i = .finishing true early wake) :
      Step resolved delayed s
        ({ s with shut := Function.update s.shut i true }.setAttempt i (.finishing false early wake))
  | attemptLaunch (i : Nat) (wake : Bool) (pc : s.attempt i = .finishing false true wake) :
      Step resolved delayed s (s.launchNext.setAttempt i (.finishing false false wake))
  | attemptWake (i : Nat) (pc : s.attempt i = .finishing false false true) :
      Step resolved delayed s (s.resumeParent.setAttempt i .ended)
  | attemptEnd (i : Nat) (pc : s.attempt i = .finishing false false false) :
      Step resolved delayed s (s.setAttempt i .ended)
  -- `he_pacer`
  | pacerEnd (pc : s.pacer = .sleeping)
      (empty : (s.done || (s.resolvesPending == 0 && decide (s.addrs.length ≤ s.nextIdx))) = true) :
      Step resolved delayed s { s with pacer := .ended }
  | pacerTick (pc : s.pacer = .sleeping)
      (empty : (s.done || (s.resolvesPending == 0 && decide (s.addrs.length ≤ s.nextIdx))) = false) :
      Step resolved delayed s { s with pacer := .launching }
  | pacerLaunch (pc : s.pacer = .launching) :
      Step resolved delayed s { s.launchNext with pacer := .sleeping }
  -- `he_resolve`
  | answer (v6 : Bool) (found : List Addr) (pc : s.resolver v6 = .resolving) :
      Step resolved delayed s
        ({ s with offered := s.offered ++ found }.setResolver v6
          (if !v6 && !found.isEmpty && delayed then .answered found else .applying found))
  | answerCheck (v6 : Bool) (found : List Addr) (pc : s.resolver v6 = .answered found) :
      Step resolved delayed s
        (s.setResolver v6
          (if !s.v6Resolved && !s.done then .holding found else .applying found))
  | answerHeld (v6 : Bool) (found : List Addr) (pc : s.resolver v6 = .holding found) :
      Step resolved delayed s (s.setResolver v6 (.applying found))
  | answerApply (v6 : Bool) (found : List Addr) (pc : s.resolver v6 = .applying found) :
      Step resolved delayed s
        ((s.applyAnswer v6 found).takeParent.setResolver v6
          (.kicking (s.applyAnswer v6 found).takes))
  | kickSkip (v6 wake : Bool) (pc : s.resolver v6 = .kicking wake)
      (busy : (s.done || decide (s.addrs.length ≤ s.nextIdx) || s.finished != s.nextIdx) = true) :
      Step resolved delayed s (s.setResolver v6 (.waking wake))
  | kick (v6 wake : Bool) (pc : s.resolver v6 = .kicking wake)
      (stalled : (s.done || decide (s.addrs.length ≤ s.nextIdx) || s.finished != s.nextIdx) = false) :
      Step resolved delayed s (s.setResolver v6 (.launching wake))
  | kickLaunch (v6 wake : Bool) (pc : s.resolver v6 = .launching wake) :
      Step resolved delayed s (s.launchNext.setResolver v6 (.waking wake))
  | resolverWake (v6 : Bool) (pc : s.resolver v6 = .waking true) :
      Step resolved delayed s (s.resumeParent.setResolver v6 .ended)
  | resolverEnd (v6 : Bool) (pc : s.resolver v6 = .waking false) :
      Step resolved delayed s (s.setResolver v6 .ended)
  -- `RaceAwaiter` and what follows it
  | ready (pc : s.parent matches .ready) :
      Step resolved delayed s { s with parent := if s.decided then .resumed else .suspending }
  | suspendNot (pc : s.parent matches .suspending) (decided : s.decided = true) :
      Step resolved delayed s { s with parent := .resumed }
  | suspend (pc : s.parent matches .suspending) (racing : s.decided = false) :
      Step resolved delayed s { s with parent := .suspended, parentWaiting := true }
  | run (pc : s.parent matches .scheduled) : Step resolved delayed s { s with parent := .resumed }
  | finish (pc : s.parent matches .resumed) :
      Step resolved delayed s { s with parent := .returned (s.result resolved) }

inductive Runs (delayed : Bool) : Bool → State Addr → Prop where
  | connectHappy (maxAttempts : Nat) : Runs delayed true (.connectHappy maxAttempts)
  | connectHappyAddrs (addrs : List Addr) (maxAttempts : Nat) :
      Runs delayed false (.connectHappyAddrs addrs maxAttempts)
  | step {resolved : Bool} {s s' : State Addr} (hs : Runs delayed resolved s)
      (hstep : Step resolved delayed s s') : Runs delayed resolved s'

end Uvent.Net.HappyEyeballs
