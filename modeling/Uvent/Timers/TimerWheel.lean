import Uvent.Lib.SwapPop
import Mathlib.Algebra.Group.Int.Defs
import Mathlib.Algebra.Group.Nat.Defs
import Mathlib.Data.Finset.Card
import Mathlib.Logic.Function.Basic

/-!
# The hierarchical timer wheel

The wheel with its four levels of 256 buckets, the queue of operations that
`tick` drains, and the Timer objects it points to.  Everything the wheel does to
the outside (coroutines it enqueues or destroys, callbacks, deleted timers) is
kept in the state, together with a log of what happened to each timer id.

The clock is read by `addTimer`, by every `UPDATE` that is applied, by `tick`
and by `getNextTimeout`; the readings are a sequence given from outside.
-/

namespace Uvent.Timers

open Uvent.Lib

abbrev Ptr := Nat

def twLevels : Nat := 4

/-- `Wheel::slots_`, the same for every level. -/
def slots : Nat := 256

/-- `Wheel::interval_` of a level. -/
def interval (level : Nat) : Nat := 256 ^ level

structure Clock where
  reading : Nat → Nat
  monotone : ∀ {i j : Nat}, i ≤ j → reading i ≤ reading j
  lt : ∀ i, reading i < 2 ^ 64

section Advance

variable {a b k : Nat}

/-- A clock that moves once: behind its first `k` readings it shows `b`. -/
theorem advance_monotone (hab : a ≤ b) {i j : Nat} (hij : i ≤ j) :
    (if i ≤ k then a else b) ≤ if j ≤ k then a else b := by
  split <;> split <;> omega

theorem advance_lt {n : Nat} (ha : a < n) (hb : b < n) (i : Nat) :
    (if i ≤ k then a else b) < n := by
  split
  · exact ha
  · exact hb

end Advance

structure Timer where
  expiryTime : Nat
  durationMs : Nat
  coro : Option Nat
  rawFn : Option Nat
  rawArg : Nat
  heap : Bool
  active : Bool
  id : Nat
  slotIndex : Nat
  level : Nat
  posInBucket : Nat
  deriving DecidableEq, Repr

/-- The queued operations; `done` is the callback of a `REMOVE` and its argument. -/
inductive Op where
  | add (timer : Ptr) (addId : Nat)
  | update (id newDur : Nat)
  | remove (idOnly : Nat) (done : Option (Nat × Nat))
  deriving DecidableEq, Repr

inductive Payload where
  | raw (fn arg : Nat)
  | coroutine (handle : Nat)
  | nothing
  deriving DecidableEq, Repr

def Timer.payload (t : Timer) : Payload :=
  match t.rawFn with
  | some fn => .raw fn t.rawArg
  | none =>
      match t.coro with
      | some h => .coroutine h
      | none => .nothing

/-- What happened to a timer id.  `drained` is an `ADD` or `UPDATE` applied with
the given expiry and wheel time; `cancelled` and `refused` are the two results
of a cancel. -/
inductive Event where
  | added (id : Nat) (p : Ptr) (payload : Payload)
  | drained (id expiry wheelTime : Nat)
  | fired (id wheelTime : Nat) (payload : Payload)
  | removed (id : Nat)
  | cancelled (id : Nat)
  | refused (id : Nat)
  | destroyed (coro : Nat)
  | deleted (p : Ptr)
  | called (fn arg : Nat)
  deriving DecidableEq, Repr

/-- The wheel, the memory of the Timer objects, and what left the wheel.

`released` holds the timers the wheel has given up; `lateAccess` records every
read or write of a timer while it is in `released`.  `log` is newest first. -/
structure TimerWheel where
  buckets : Nat → Nat → List Ptr
  currentTime : Nat
  timerMap : Nat → Option Ptr
  timerIdCounter : Nat
  nextExpiryTime : Nat
  nextExpiryDirty : Bool
  activeTimerCount : Nat
  timerOperationsQueue : List Op
  firedRaw : List (Nat × Nat)
  cancelledPending : Finset Nat
  detachedPending : Finset Nat
  maxAddedId : Nat
  mem : Ptr → Timer
  runQueue : List Nat
  reads : Nat
  addedAs : Nat → Option Ptr
  released : Finset Ptr
  lateAccess : List Ptr
  log : List Event

def setBucket (b : Nat → Nat → List Ptr) (level slot : Nat) (bucket : List Ptr) :
    Nat → Nat → List Ptr :=
  fun level' slot' => if level' = level ∧ slot' = slot then bucket else b level' slot'

namespace TimerWheel

/-! ## Access to the outside -/

def record (w : TimerWheel) (e : Event) : TimerWheel := { w with log := e :: w.log }

def touch (w : TimerWheel) (p : Ptr) : TimerWheel :=
  { w with lateAccess := if p ∈ w.released then p :: w.lateAccess else w.lateAccess }

def modifyTimer (w : TimerWheel) (p : Ptr) (f : Timer → Timer) : TimerWheel :=
  { w.touch p with mem := Function.update w.mem p (f (w.mem p)) }

/-- The wheel gives up the timer that was added as `id`, unless its object has
been added again since. -/
def release (w : TimerWheel) (id : Nat) : TimerWheel :=
  match w.addedAs id with
  | none => w
  | some p => if (w.mem p).id = id then { w with released := insert p w.released } else w

def destroyCoro (w : TimerWheel) : Option Nat → TimerWheel
  | some h => w.record (.destroyed h)
  | none => w

def deleteIf (w : TimerWheel) (heap : Bool) (p : Ptr) : TimerWheel :=
  if heap then w.record (.deleted p) else w

/-- `if (t->coro) t->coro.destroy(); if (t->heap) delete t;` -/
def dispose (w : TimerWheel) (p : Ptr) : TimerWheel :=
  ((w.touch p).destroyCoro (w.mem p).coro).deleteIf (w.mem p).heap p

/-! ## The map of live ids -/

def insertId (w : TimerWheel) (id : Nat) (p : Ptr) : TimerWheel :=
  { w with
    timerMap := Function.update w.timerMap id (some p),
    activeTimerCount := w.activeTimerCount + 1 }

def eraseId (w : TimerWheel) (id : Nat) : TimerWheel :=
  { w with
    timerMap := Function.update w.timerMap id none,
    activeTimerCount := w.activeTimerCount - 1 }

/-- `if (timer->expiryTime == nextExpiryTime_) nextExpiryDirty_ = true;` -/
def markDirty (w : TimerWheel) (expiryTime : Nat) : TimerWheel :=
  { w with
    nextExpiryDirty := if expiryTime = w.nextExpiryTime then true else w.nextExpiryDirty }

/-! ## Buckets -/

/-- The level loop of `addTimerToWheel`, with `left` levels above `level`. -/
def findLevel (diff : Nat) : (left level : Nat) → Nat
  | 0, level => level
  | left + 1, level =>
      if diff ≥ interval level * slots then findLevel diff left (level + 1) else level

def addTimerToWheel (w : TimerWheel) (p : Ptr) (expiryTime : Nat) : TimerWheel :=
  let diff := if expiryTime > w.currentTime then expiryTime - w.currentTime else 0
  let level := findLevel diff (twLevels - 1) 0
  let slot :=
    if diff = 0 then (w.currentTime + 1) % slots else expiryTime / interval level % slots
  let bucket := w.buckets level slot
  let w := w.modifyTimer p fun t =>
    { t with level := level, slotIndex := slot, posInBucket := bucket.length }
  { w with
    buckets := setBucket w.buckets level slot (bucket ++ [p]),
    nextExpiryTime :=
      if w.nextExpiryTime = 0 ∨ expiryTime < w.nextExpiryTime then expiryTime
      else w.nextExpiryTime }

/-- Overwrite position `pos` of a bucket with its last timer, tell that timer
its new position, and pop. -/
def swapPopAt (w : TimerWheel) (level slot pos : Nat) : TimerWheel :=
  let bucket := w.buckets level slot
  let w :=
    if pos ≠ bucket.length - 1 then
      match bucket.getLast? with
      | some q => w.modifyTimer q fun t => { t with posInBucket := pos }
      | none => w
    else w
  { w with buckets := setBucket w.buckets level slot (swapPop bucket pos) }

/-- Take a timer out of the bucket it names: at its recorded position, or where
`std::find` finds it. -/
def popEntry (w : TimerWheel) (p : Ptr) : TimerWheel :=
  let timer := w.mem p
  let bucket := w.buckets timer.level timer.slotIndex
  if bucket[timer.posInBucket]? = some p then
    w.swapPopAt timer.level timer.slotIndex timer.posInBucket
  else if p ∈ bucket then w.swapPopAt timer.level timer.slotIndex (bucket.idxOf p)
  else w

def removeTimerFromWheel (w : TimerWheel) (p : Ptr) : TimerWheel :=
  if (w.mem p).level ≥ twLevels then w.touch p
  else ((w.touch p).popEntry p).markDirty (w.mem p).expiryTime

def deactivate (w : TimerWheel) (p : Ptr) : TimerWheel :=
  w.modifyTimer p fun t => { t with active := false }

/-- What every cancel and `REMOVE` do first with an active timer. -/
def unlink (w : TimerWheel) (id : Nat) (p : Ptr) : TimerWheel :=
  ((w.deactivate p).removeTimerFromWheel p).eraseId id

/-! ## The calls of a client -/

def now (clock : Clock) (w : TimerWheel) : Nat := clock.reading w.reads

/-- `getCurrentTime()` takes the next reading, `now`. -/
def afterReading (w : TimerWheel) : TimerWheel := { w with reads := w.reads + 1 }

/-- The client constructs or re-arms the object at `p`, which is no longer
released then. -/
def arm (w : TimerWheel) (p : Ptr) (t : Timer) : TimerWheel :=
  { w with mem := Function.update w.mem p t, released := w.released.erase p }

def enqueueOp (w : TimerWheel) (op : Op) : TimerWheel :=
  { w with timerOperationsQueue := w.timerOperationsQueue ++ [op] }

/-- Give the timer its expiry and the next id, and queue its `ADD`. -/
def issue (w : TimerWheel) (p : Ptr) (expiry : Nat) : TimerWheel :=
  let id := w.timerIdCounter + 1
  let payload := (w.mem p).payload
  let w := w.modifyTimer p fun t => { t with expiryTime := expiry, id := id }
  let w := { w with timerIdCounter := id, addedAs := Function.update w.addedAs id (some p) }
  (w.enqueueOp (.add p id)).record (.added id p payload)

def addTimer (clock : Clock) (w : TimerWheel) (p : Ptr) : Nat × TimerWheel :=
  (w.timerIdCounter + 1,
    w.afterReading.issue p ((w.now clock + (w.mem p).durationMs) % 2 ^ 64))

def updateTimer (w : TimerWheel) (timerId newDuration : Nat) : TimerWheel :=
  w.enqueueOp (.update timerId newDuration)

def removeTimer (w : TimerWheel) (timerId : Nat) (done : Option (Nat × Nat)) : TimerWheel :=
  w.enqueueOp (.remove timerId done)

def markCancelled (w : TimerWheel) (id : Nat) : TimerWheel :=
  { w with cancelledPending := insert id w.cancelledPending }

def markDetached (w : TimerWheel) (id : Nat) : TimerWheel :=
  { w with detachedPending := insert id w.detachedPending }

/-- `heap` is false for the timer that was added as `id`. -/
def embedded (w : TimerWheel) (id : Nat) : Bool :=
  match w.addedAs id with
  | some p => !(w.mem p).heap
  | none => false

/-- `cancelTimer`.  With the result `true` an embedded timer is given up. -/
def cancelTimer (w : TimerWheel) (timerId : Nat) : Bool × TimerWheel :=
  if timerId = 0 then (false, w.record (.refused timerId))
  else
    match w.timerMap timerId with
    | none =>
        if timerId > w.maxAddedId then
          let w' := (w.markCancelled timerId).record (.cancelled timerId)
          (true, if w.embedded timerId then w'.release timerId else w')
        else (false, w.record (.refused timerId))
    | some p =>
        if (w.mem p).active then
          let w' := (((w.touch p).unlink timerId p).record (.cancelled timerId)).dispose p
          (true, if (w.mem p).heap then w' else w'.release timerId)
        else (false, (w.touch p).record (.refused timerId))

def cancelTimerDetach (w : TimerWheel) (timerId : Nat) : Bool × TimerWheel :=
  if timerId = 0 then (false, w.record (.refused timerId))
  else
    match w.timerMap timerId with
    | none =>
        if timerId > w.maxAddedId then
          (true, ((w.markDetached timerId).record (.cancelled timerId)).release timerId)
        else (false, w.record (.refused timerId))
    | some p =>
        if (w.mem p).active then
          (true, (((w.touch p).unlink timerId p).record (.cancelled timerId)).release timerId)
        else (false, (w.touch p).record (.refused timerId))

def getNextTimeout (clock : Clock) (w : TimerWheel) : Int :=
  let next := w.nextExpiryTime
  if next = 0 then -1
  else if next ≤ w.now clock then 0
  else if next - w.now clock > 2 ^ 31 - 1 then 2 ^ 31 - 1
  else (next - w.now clock : Nat)

/-! ## Draining the operations -/

def raiseMax (w : TimerWheel) (addId : Nat) : TimerWheel :=
  { w with maxAddedId := if addId > w.maxAddedId then addId else w.maxAddedId }

/-- The `ADD` branch that was neither detached nor cancelled. -/
def accept (w : TimerWheel) (p : Ptr) : TimerWheel :=
  let timer := w.mem p
  (((w.touch p).addTimerToWheel p timer.expiryTime).insertId timer.id p).record
    (.drained timer.id timer.expiryTime w.currentTime)

def applyAdd (w : TimerWheel) (p : Ptr) (addId : Nat) : TimerWheel :=
  let w := w.raiseMax addId
  if addId ∈ w.detachedPending then
    { w with detachedPending := w.detachedPending.erase addId }
  else if addId ∈ w.cancelledPending then
    { w with cancelledPending := w.cancelledPending.erase addId }.dispose p
  else w.accept p

def rearm (w : TimerWheel) (id : Nat) (p : Ptr) (newDur expiry : Nat) : TimerWheel :=
  let w := ((w.removeTimerFromWheel p).afterReading).modifyTimer p fun t =>
    { t with durationMs := newDur, expiryTime := expiry }
  (w.addTimerToWheel p expiry).record (.drained id expiry w.currentTime)

def applyUpdate (clock : Clock) (w : TimerWheel) (id newDur : Nat) : TimerWheel :=
  match w.timerMap id with
  | none => w
  | some p =>
      if (w.mem p).active then
        (w.touch p).rearm id p newDur ((w.now clock + newDur) % 2 ^ 64)
      else w.touch p

def applyRemove (w : TimerWheel) (id : Nat) : TimerWheel :=
  match w.timerMap id with
  | some p =>
      if (w.mem p).active then (((w.touch p).unlink id p).record (.removed id)).dispose p
      else w.touch p
  | none => if id > w.maxAddedId then (w.markCancelled id).record (.removed id) else w

def applyDone (w : TimerWheel) (id : Nat) : Option (Nat × Nat) → TimerWheel
  | none => w
  | some (fn, arg) => (w.record (.called fn arg)).release id

def applyOp (clock : Clock) (w : TimerWheel) : Op → TimerWheel
  | .add p addId => w.applyAdd p addId
  | .update id newDur => w.applyUpdate clock id newDur
  | .remove id done => (w.applyRemove id).applyDone id done

def drainLoop (clock : Clock) : List Op → TimerWheel → TimerWheel
  | [], w => w
  | op :: rest, w => drainLoop clock rest ({ w with timerOperationsQueue := rest }.applyOp clock op)

def drainOps (clock : Clock) (w : TimerWheel) : TimerWheel :=
  drainLoop clock w.timerOperationsQueue w

/-! ## Advancing -/

/-- A raw callback waits in `fired_raw_`, a coroutine goes to the run queue. -/
def handOver (w : TimerWheel) : Payload → TimerWheel
  | .raw fn arg => { w with firedRaw := w.firedRaw ++ [(fn, arg)] }
  | .coroutine h => { w with runQueue := w.runQueue ++ [h] }
  | .nothing => w

/-- The branch of `processSlot` for an expired timer. -/
def fire (w : TimerWheel) (p : Ptr) : TimerWheel :=
  let timer := w.mem p
  let w' := (w.handOver timer.payload).record
    (.fired timer.id w.currentTime timer.payload)
  (((w'.deactivate p).eraseId timer.id).markDirty timer.expiryTime).deleteIf timer.heap p

def visit (w : TimerWheel) (p : Ptr) : TimerWheel :=
  if (w.mem p).active then
    if (w.mem p).expiryTime ≤ w.currentTime then (w.touch p).fire p
    else (w.touch p).addTimerToWheel p (w.mem p).expiryTime
  else w.touch p

/-- The loop of `processSlot`.  Its index stays `0`, since every round pops the
timer it looked at. -/
def processSlot (level slot : Nat) : (fuel : Nat) → TimerWheel → Option TimerWheel
  | 0, _ => none
  | fuel + 1, w =>
      match w.buckets level slot with
      | [] => some w
      | p :: _ => processSlot level slot fuel ((w.visit p).swapPopAt level slot 0)

/-- The loop of `advance` over the levels above `0`, highest first. -/
def cascade (fuel : Nat) : (level : Nat) → TimerWheel → Option TimerWheel
  | 0, w => some w
  | level + 1, w =>
      if w.currentTime % interval (level + 1) ≠ 0 then cascade fuel level w
      else
        match processSlot (level + 1) (w.currentTime / interval (level + 1) % slots) fuel w with
        | none => none
        | some w => cascade fuel level w

def advance (fuel : Nat) (w : TimerWheel) : Option TimerWheel :=
  match cascade fuel (twLevels - 1) { w with currentTime := w.currentTime + 1 } with
  | none => none
  | some w => processSlot 0 (w.currentTime % slots) fuel w

/-- `while (currentTime_ < newTime) advance();` with the number of rounds left. -/
def advanceBy (fuel : Nat) : (rounds : Nat) → TimerWheel → Option TimerWheel
  | 0, w => some w
  | rounds + 1, w =>
      match advance fuel w with
      | none => none
      | some w => advanceBy fuel rounds w

/-! ## The earliest expiry -/

def entries (w : TimerWheel) : List Ptr :=
  (List.range twLevels).flatMap fun level =>
    (List.range slots).flatMap fun slot => w.buckets level slot

def scanTimer (w : TimerWheel) (p : Ptr) : TimerWheel :=
  let timer := w.mem p
  { w.touch p with
    nextExpiryTime :=
      if !timer.active then w.nextExpiryTime
      else if w.nextExpiryTime = 0 ∨ timer.expiryTime < w.nextExpiryTime then timer.expiryTime
      else w.nextExpiryTime }

def updateNextExpiryTime (w : TimerWheel) : TimerWheel :=
  w.entries.foldl scanTimer { w with nextExpiryTime := 0 }

def refreshMinimum (w : TimerWheel) : TimerWheel :=
  if w.activeTimerCount = 0 then { w with nextExpiryTime := 0 }
  else if w.nextExpiryDirty ∨ w.nextExpiryTime = 0 then w.updateNextExpiryTime
  else w

def refreshNextExpiry (w : TimerWheel) : TimerWheel :=
  { w.refreshMinimum with nextExpiryDirty := false }

def callRaw (w : TimerWheel) (c : Nat × Nat) : TimerWheel := w.record (.called c.1 c.2)

def runFired (w : TimerWheel) : TimerWheel :=
  { w.firedRaw.foldl callRaw w with firedRaw := [] }

def tick (clock : Clock) (fuel : Nat) (w : TimerWheel) : Option TimerWheel :=
  let w := w.drainOps clock
  let newTime := w.now clock
  if newTime ≤ w.currentTime then some w.afterReading.refreshNextExpiry
  else
    match advanceBy fuel (newTime - w.currentTime) w.afterReading with
    | none => none
    | some w => some w.refreshNextExpiry.runFired

/-- A new wheel; it reads the clock once. -/
def new (clock : Clock) : TimerWheel where
  buckets _ _ := []
  currentTime := clock.reading 0
  timerMap _ := none
  timerIdCounter := 0
  nextExpiryTime := 0
  nextExpiryDirty := false
  activeTimerCount := 0
  timerOperationsQueue := []
  firedRaw := []
  cancelledPending := ∅
  detachedPending := ∅
  maxAddedId := 0
  mem _ := ⟨0, 0, none, none, 0, true, false, 0, 0, 0, 0⟩
  runQueue := []
  reads := 1
  addedAs _ := none
  released := ∅
  lateAccess := []
  log := []

end TimerWheel

end Uvent.Timers
