import Uvent.Timers.Buckets

/-!
# What one step of the wheel can do

Every operation of the wheel is a chain of a few effects: a timer is added,
admitted to the buckets, moved, fired, unlinked or dropped, an id is marked, or
only the bookkeeping changes.  Each effect says what it changes and what it
leaves alone, so that an invariant is checked once per effect.
-/

namespace Uvent.Timers

open TimerWheel

/-- What the callers promise about the ids they pass, besides the use of timers
that `AddOk` asks for, and whether time may pass. -/
structure Policy where
  cancel : TimerWheel → Nat → Prop
  detach : TimerWheel → Nat → Prop
  remove : TimerWheel → Nat → Prop
  advancing : Prop

def Policy.any : Policy := ⟨fun _ _ => True, fun _ _ => True, fun _ _ => True, True⟩

def Policy.idle (policy : Policy) : Policy := { policy with advancing := False }

/-- A timer may be added: it is armed and not in the wheel, and an `ADD` still
queued for the same object will be dropped without using it. -/
structure AddOk (w : TimerWheel) (p : Ptr) (t : Timer) : Prop where
  armed : t.active = true
  unmapped : ∀ id, w.timerMap id ≠ some p
  queued : ∀ id, Op.add p id ∈ w.timerOperationsQueue →
    id ∈ w.detachedPending ∨
      (id ∈ w.cancelledPending ∧ (w.mem p).heap = false ∧ t.heap = false ∧ t.coro = none)

def Event.Plain : Event → Prop
  | .destroyed _ | .deleted _ | .called _ _ => True
  | _ => False

structure Still (w w' : TimerWheel) : Prop where
  buckets : w'.buckets = w.buckets
  mem : w'.mem = w.mem
  next : w'.nextExpiryTime = w.nextExpiryTime
  dirty : w'.nextExpiryDirty = w.nextExpiryDirty
  late : (∀ q, w.Holds q → q ∉ w.released) → w'.lateAccess = w.lateAccess

/-- `p` leaves its bucket, if it has one, and goes to `target`, if there is one;
its contents change by `f` and every other timer only in its place. -/
structure Moved (w w' : TimerWheel) (p : Ptr) (target : Option (Nat × Nat))
    (f : Timer → Timer) : Prop where
  linked : Linked w'.buckets w'.mem
  buckets : ∀ level slot q, q ∈ w'.buckets level slot ↔
    (q ∈ w.buckets level slot ∧ q ≠ p) ∨ (q = p ∧ target = some (level, slot))
  self : (w'.mem p).unplaced = (f (w.mem p)).unplaced
  others : ∀ q, q ≠ p → (w'.mem q).unplaced = (w.mem q).unplaced
  late : (∀ q, w.Holds q → q ∉ w.released) → p ∉ w.released → w'.lateAccess = w.lateAccess

/-- `nextExpiryTime_` after a timer with expiry `e` went into a bucket. -/
def lowered (next e : Nat) : Nat := if next = 0 ∨ e < next then e else next

/-- `nextExpiryDirty_` after a timer with expiry `e` went out. -/
def soiled (w : TimerWheel) (e : Nat) : Bool :=
  if e = w.nextExpiryTime then true else w.nextExpiryDirty

inductive Effect (policy : Policy) (w w' : TimerWheel) : Prop where
  | quiet (still : Still w w') (books : w'.books = w.books)
  | refresh (hbuckets : w'.buckets = w.buckets) (hmem : w'.mem = w.mem)
      (books : w'.books = w.books)
      (next : w'.nextExpiryTime = w.refreshMinimum.nextExpiryTime)
      (dirty : w'.nextExpiryDirty = false)
      (late : (∀ q, w.Holds q → q ∉ w.released) → w'.lateAccess = w.lateAccess)
  | note (e : Event) (plain : e.Plain) (still : Still w w')
      (books : w'.books = { w.books with log := e :: w.log })
  | refused (id : Nat) (unmapped : w.timerMap id = none) (old : id = 0 ∨ id ≤ w.maxAddedId)
      (still : Still w w') (books : w'.books = { w.books with log := .refused id :: w.log })
  | update (id newDur : Nat) (still : Still w w')
      (books : w'.books =
        { w.books with timerOperationsQueue := w.timerOperationsQueue ++ [.update id newDur] })
  | remove (id : Nat) (done : Option (Nat × Nat)) (ok : policy.remove w id) (still : Still w w')
      (books : w'.books =
        { w.books with timerOperationsQueue := w.timerOperationsQueue ++ [.remove id done] })
  | add (p : Ptr) (t : Timer) (expiry : Nat) (ok : AddOk w p t) (hbuckets : w'.buckets = w.buckets)
      (hmem : w'.mem = Function.update w.mem p
        { t with expiryTime := expiry, id := w.timerIdCounter + 1 })
      (books : w'.books =
        { w.books with
          timerIdCounter := w.timerIdCounter + 1,
          timerOperationsQueue := w.timerOperationsQueue ++ [.add p (w.timerIdCounter + 1)],
          addedAs := Function.update w.addedAs (w.timerIdCounter + 1) (some p),
          released := w.released.erase p,
          log := .added (w.timerIdCounter + 1) p t.payload :: w.log })
      (next : w'.nextExpiryTime = w.nextExpiryTime)
      (dirty : w'.nextExpiryDirty = w.nextExpiryDirty)
      (late : w'.lateAccess = w.lateAccess)
  | pendCancel (id : Nat) (ok : policy.cancel w id) (pos : id ≠ 0)
      (unmapped : w.timerMap id = none) (new : id > w.maxAddedId) (still : Still w w')
      (books : w'.books =
        { w.books with
          cancelledPending := insert id w.cancelledPending,
          released := if w.embedded id then (w.release id).released else w.released,
          log := .cancelled id :: w.log })
  | pendDetach (id : Nat) (ok : policy.detach w id) (pos : id ≠ 0)
      (unmapped : w.timerMap id = none) (new : id > w.maxAddedId) (still : Still w w')
      (books : w'.books =
        { w.books with
          detachedPending := insert id w.detachedPending, log := .cancelled id :: w.log })
  | pendRemove (id : Nat) (done : Option (Nat × Nat)) (rest : List Op) (plain : List Event)
      (released : Finset Ptr) (hplain : ∀ e ∈ plain, e.Plain)
      (head : w.timerOperationsQueue = .remove id done :: rest)
      (unmapped : w.timerMap id = none) (new : id > w.maxAddedId) (still : Still w w')
      (books : w'.books =
        { w.books with
          timerOperationsQueue := rest, cancelledPending := insert id w.cancelledPending,
          released := released, log := plain ++ .removed id :: w.log })
  | release (id : Nat) (unmapped : w.timerMap id = none)
      (gone : id ≤ w.maxAddedId ∨ id ∈ w.detachedPending) (still : Still w w')
      (books : w'.books = { w.books with released := (w.release id).released })
  | pop (op : Op) (rest : List Op) (head : w.timerOperationsQueue = op :: rest)
      (other : ∀ p id, op ≠ .add p id) (still : Still w w')
      (books : w'.books = { w.books with timerOperationsQueue := rest })
  | dropDetached (p : Ptr) (id : Nat) (rest : List Op)
      (head : w.timerOperationsQueue = .add p id :: rest) (detached : id ∈ w.detachedPending)
      (still : Still w w')
      (books : w'.books =
        { w.books with
          timerOperationsQueue := rest, maxAddedId := max w.maxAddedId id,
          detachedPending := w.detachedPending.erase id })
  | dropCancelled (p : Ptr) (id : Nat) (rest : List Op)
      (head : w.timerOperationsQueue = .add p id :: rest) (attached : id ∉ w.detachedPending)
      (cancelled : id ∈ w.cancelledPending) (hbuckets : w'.buckets = w.buckets)
      (hmem : w'.mem = w.mem)
      (books : w'.books =
        { w.books with
          timerOperationsQueue := rest, maxAddedId := max w.maxAddedId id,
          cancelledPending := w.cancelledPending.erase id })
      (next : w'.nextExpiryTime = w.nextExpiryTime)
      (dirty : w'.nextExpiryDirty = w.nextExpiryDirty)
      (late : p ∉ w.released → w'.lateAccess = w.lateAccess)
  | accept (p : Ptr) (id : Nat) (rest : List Op)
      (head : w.timerOperationsQueue = .add p id :: rest) (attached : id ∉ w.detachedPending)
      (live : id ∉ w.cancelledPending)
      (moved : Moved w w' p (some (w.place (w.mem p).expiryTime)) fun t => t)
      (books : w'.books =
        { w.books with
          timerOperationsQueue := rest, maxAddedId := max w.maxAddedId id,
          timerMap := Function.update w.timerMap (w.mem p).id (some p),
          activeTimerCount := w.activeTimerCount + 1,
          log := .drained (w.mem p).id (w.mem p).expiryTime w.currentTime :: w.log })
      (next : w'.nextExpiryTime = lowered w.nextExpiryTime (w.mem p).expiryTime)
      (dirty : w'.nextExpiryDirty = w.nextExpiryDirty)
  | rearm (id : Nat) (p : Ptr) (newDur expiry : Nat) (mapped : w.timerMap id = some p)
      (moved : Moved w w' p (some (w.place expiry)) fun t =>
        { t with durationMs := newDur, expiryTime := expiry })
      (books : w'.books = { w.books with log := .drained id expiry w.currentTime :: w.log })
      (next : w'.nextExpiryTime = lowered w.nextExpiryTime expiry)
      (dirty : w'.nextExpiryDirty = soiled w (w.mem p).expiryTime)
  | unlink (id : Nat) (p : Ptr) (e : Event) (kind : e = .cancelled id ∨ e = .removed id)
      (mapped : w.timerMap id = some p)
      (moved : Moved w w' p none fun t => { t with active := false })
      (books : w'.books =
        { w.books with
          timerMap := Function.update w.timerMap id none,
          activeTimerCount := w.activeTimerCount - 1, log := e :: w.log })
      (next : w'.nextExpiryTime = w.nextExpiryTime)
      (dirty : w'.nextExpiryDirty = soiled w (w.mem p).expiryTime)
  | fire (p : Ptr) (adv : policy.advancing) (holds : w.Holds p) (due : (w.mem p).expiryTime ≤ w.currentTime)
      (moved : Moved w w' p none fun t => { t with active := false })
      (books : w'.books =
        { w.books with
          timerMap := Function.update w.timerMap (w.mem p).id none,
          activeTimerCount := w.activeTimerCount - 1,
          log := .fired (w.mem p).id w.currentTime (w.mem p).payload :: w.log })
      (next : w'.nextExpiryTime = w.nextExpiryTime)
      (dirty : w'.nextExpiryDirty = soiled w (w.mem p).expiryTime)
  | relink (p : Ptr) (adv : policy.advancing) (holds : w.Holds p)
      (early : w.currentTime < (w.mem p).expiryTime)
      (moved : Moved w w' p (some (w.place (w.mem p).expiryTime)) fun t => t)
      (books : w'.books = w.books)
      (next : w'.nextExpiryTime = lowered w.nextExpiryTime (w.mem p).expiryTime)
      (dirty : w'.nextExpiryDirty = w.nextExpiryDirty)
  | pass (adv : policy.advancing) (still : Still w w')
      (books : w'.books = { w.books with currentTime := w.currentTime + 1 })

/-- The log only grows. -/
theorem Effect.log_eq {policy : Policy} {w w' : TimerWheel} (heff : Effect policy w w') :
    ∃ l, w'.log = l ++ w.log := by
  cases heff with
  | quiet still books => exact ⟨[], congrArg Books.log books⟩
  | refresh _ _ books => exact ⟨[], congrArg Books.log books⟩
  | note e _ _ books => exact ⟨[e], congrArg Books.log books⟩
  | refused id _ _ _ books => exact ⟨[.refused id], congrArg Books.log books⟩
  | update _ _ _ books => exact ⟨[], congrArg Books.log books⟩
  | remove _ _ _ _ books => exact ⟨[], congrArg Books.log books⟩
  | add _ _ _ _ _ _ books => exact ⟨[_], congrArg Books.log books⟩
  | pendCancel _ _ _ _ _ _ books => exact ⟨[_], congrArg Books.log books⟩
  | pendDetach _ _ _ _ _ _ books => exact ⟨[_], congrArg Books.log books⟩
  | pendRemove id _ _ plain _ _ _ _ _ _ books =>
      refine ⟨plain ++ [.removed id], ?_⟩
      rw [List.append_assoc]
      exact congrArg Books.log books
  | release _ _ _ _ books => exact ⟨[], congrArg Books.log books⟩
  | pop _ _ _ _ _ books => exact ⟨[], congrArg Books.log books⟩
  | dropDetached _ _ _ _ _ _ books => exact ⟨[], congrArg Books.log books⟩
  | dropCancelled _ _ _ _ _ _ _ _ books => exact ⟨[], congrArg Books.log books⟩
  | accept _ _ _ _ _ _ _ books => exact ⟨[_], congrArg Books.log books⟩
  | rearm _ _ _ _ _ _ books => exact ⟨[_], congrArg Books.log books⟩
  | unlink _ _ e _ _ _ books => exact ⟨[e], congrArg Books.log books⟩
  | fire _ _ _ _ _ books => exact ⟨[_], congrArg Books.log books⟩
  | relink _ _ _ _ _ books => exact ⟨[], congrArg Books.log books⟩
  | pass _ _ books => exact ⟨[], congrArg Books.log books⟩

end Uvent.Timers
