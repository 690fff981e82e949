import Uvent.Timers.NextExpiry

/-!
# The loop of a worker

One iteration of `Thread::threadFunction` polls, resumes coroutines, ticks the
wheel of the worker and serves its queues.  What the resumed coroutines, the
callbacks and the forwarded operations do is not fixed: they make any calls on
the wheel and enqueue any coroutines.

The sleep of an iteration comes from `nextExpiryTime_`, which `tick` refreshed
before the later phases ran.
-/

namespace Uvent.System

open Uvent.Timers TimerWheel Relation

/-- The settings the loop reads, with the largest `int` a poll can be given. -/
structure Settings where
  idleFallbackMs : Nat
  loopTaskQuantum : Nat
  representable : idleFallbackMs ≤ 2 ^ 31 - 1

/-- The values of `Settings.cpp`. -/
def Settings.initial : Settings := ⟨50, 4096, by decide⟩

/-- Where the loop is: at the poll, between two coroutines with a quantum left,
inside a coroutine, or in one of the parts after them. -/
inductive Phase where
  | poll
  | resume (quantum : Nat)
  | running (quantum : Nat)
  | tick
  | callbacks
  | sharedTasks
  | destroy
  | freeSockets
  | inbox
  | cancelKicks
  | socketOps
  deriving DecidableEq, Repr

def Phase.hostsClient : Phase → Bool
  | .running _ | .callbacks | .destroy | .freeSockets | .cancelKicks | .socketOps => true
  | _ => false

/-- A worker; its run queue is the one the wheel hands coroutines to. -/
structure Worker where
  phase : Phase
  wheel : TimerWheel

inductive Client (clock : Clock) (w : TimerWheel) : TimerWheel → Prop where
  | call {w' : TimerWheel} (c : Call) (ok : c.Ok Policy.any w) (notTick : c ≠ .tick)
      (hrun : c.exec clock 0 w = some w') : Client clock w w'
  | enqueue (coro : Nat) : Client clock w { w with runQueue := w.runQueue ++ [coro] }

def pollTimeout (settings : Settings) (clock : Clock) (w : TimerWheel) : Int :=
  let nextTimeout := w.getNextTimeout clock
  if w.runQueue.isEmpty then
    if nextTimeout > 0 then nextTimeout else settings.idleFallbackMs
  else 0

/-- The steps of the loop.  A poll reads the clock for its timeout and returns
with the coroutines whose sockets are ready. -/
inductive Step (settings : Settings) (clock : Clock) : Worker → Worker → Prop where
  | poll {w : TimerWheel} (ready : List Nat) :
      Step settings clock ⟨.poll, w⟩
        ⟨.resume settings.loopTaskQuantum,
          { w.afterReading with runQueue := w.runQueue ++ ready }⟩
  | dequeue {w : TimerWheel} {quantum coro : Nat} {rest : List Nat}
      (hqueue : w.runQueue = coro :: rest) :
      Step settings clock ⟨.resume (quantum + 1), w⟩ ⟨.running quantum, { w with runQueue := rest }⟩
  | client {w w' : TimerWheel} {phase : Phase} (hosts : phase.hostsClient = true)
      (action : Client clock w w') : Step settings clock ⟨phase, w⟩ ⟨phase, w'⟩
  | suspend {w : TimerWheel} {quantum : Nat} :
      Step settings clock ⟨.running quantum, w⟩ ⟨.resume quantum, w⟩
  | resumed {w : TimerWheel} {quantum : Nat} (done : quantum = 0 ∨ w.runQueue = []) :
      Step settings clock ⟨.resume quantum, w⟩ ⟨.tick, w⟩
  | tick {w w' : TimerWheel} (fuel : Nat) (hrun : w.tick clock fuel = some w') :
      Step settings clock ⟨.tick, w⟩ ⟨.callbacks, w'⟩
  | called {w : TimerWheel} : Step settings clock ⟨.callbacks, w⟩ ⟨.sharedTasks, w⟩
  | sharedTasks {w : TimerWheel} (task : Option Nat) :
      Step settings clock ⟨.sharedTasks, w⟩
        ⟨.destroy, { w with runQueue := w.runQueue ++ task.toList }⟩
  | destroyed {w : TimerWheel} : Step settings clock ⟨.destroy, w⟩ ⟨.freeSockets, w⟩
  | freed {w : TimerWheel} : Step settings clock ⟨.freeSockets, w⟩ ⟨.inbox, w⟩
  | inbox {w : TimerWheel} (frames : List Nat) :
      Step settings clock ⟨.inbox, w⟩
        ⟨.cancelKicks, { w with runQueue := w.runQueue ++ frames }⟩
  | kicked {w : TimerWheel} : Step settings clock ⟨.cancelKicks, w⟩ ⟨.socketOps, w⟩
  | again {w : TimerWheel} : Step settings clock ⟨.socketOps, w⟩ ⟨.poll, w⟩

def Worker.start (clock : Clock) (frames : List Nat) : Worker :=
  ⟨.poll, { TimerWheel.new clock with runQueue := frames }⟩

def Runs (settings : Settings) (clock : Clock) (worker : Worker) : Prop :=
  ∃ frames, ReflTransGen (Step settings clock) (Worker.start clock frames) worker

section Wheel

variable {settings : Settings} {clock : Clock} {worker worker' : Worker} {w w' : TimerWheel}

theorem runQueue_effect (w : TimerWheel) (queue : List Nat) :
    Effect Policy.any w { w with runQueue := queue } :=
  .quiet ⟨rfl, rfl, rfl, rfl, fun _ => rfl⟩ rfl

theorem Client.effects (h : Inv w) (action : Client clock w w') : Effects Policy.any w w' := by
  cases action with
  | call c ok notTick hrun => exact Call.exec_effects h ok (.inl trivial) hrun
  | enqueue coro => exact .single (runQueue_effect w _)

/-- A step of the loop is a chain of effects on the wheel. -/
theorem Step.effects (h : Inv worker.wheel) (step : Step settings clock worker worker') :
    Effects Policy.any worker.wheel worker'.wheel := by
  cases step with
  | poll ready =>
      exact (ReflTransGen.single (afterReading_effect _)).tail (runQueue_effect _ _)
  | dequeue hqueue => exact .single (runQueue_effect _ _)
  | client hosts action => exact action.effects h
  | suspend => exact .refl
  | resumed done => exact .refl
  | tick fuel hrun => exact tick_effects trivial clock h hrun
  | called => exact .refl
  | sharedTasks task => exact .single (runQueue_effect _ _)
  | destroyed => exact .refl
  | freed => exact .refl
  | inbox frames => exact .single (runQueue_effect _ _)
  | kicked => exact .refl
  | again => exact .refl

theorem Runs.effects (h : Runs settings clock worker) :
    Effects Policy.any (TimerWheel.new clock) worker.wheel := by
  obtain ⟨frames, hsteps⟩ := h
  induction hsteps with
  | refl => exact .single (runQueue_effect _ _)
  | tail _ step ih => exact ih.trans (step.effects ((inv_new clock).effects ih))

end Wheel

/-! ## The sleep -/

/-- The `ADD` of the id is queued and will be admitted. -/
def Waiting (w : TimerWheel) (p : Ptr) (id : Nat) : Prop :=
  Op.add p id ∈ w.timerOperationsQueue ∧ id ∉ w.cancelledPending ∧ id ∉ w.detachedPending

/-- An expiry that a queued operation gives to a timer; an `UPDATE` counts from
`now`. -/
inductive QueuedExpiry (w : TimerWheel) (now : Nat) : Nat → Prop where
  | add {p : Ptr} {id : Nat} (waiting : Waiting w p id) :
      QueuedExpiry w now (w.mem p).expiryTime
  | update {id newDur : Nat} (queued : Op.update id newDur ∈ w.timerOperationsQueue)
      (live : w.timerMap id ≠ none ∨ ∃ p, Waiting w p id) :
      QueuedExpiry w now ((now + newDur) % 2 ^ 64)

def Awaited (w : TimerWheel) (now e : Nat) : Prop :=
  (∃ id p, w.timerMap id = some p ∧ (w.mem p).active = true ∧ (w.mem p).expiryTime = e) ∨
    QueuedExpiry w now e

/-- The poll sleeps past no timer whose distance is an `int`. -/
def WakesInTime (settings : Settings) (clock : Clock) (w : TimerWheel) : Prop :=
  ∀ e, Awaited w (w.now clock) e → e - w.now clock ≤ 2 ^ 31 - 1 →
    pollTimeout settings clock w ≤ ((e - w.now clock : Nat) : Int)

/-- The tracked minimum lies ahead and no queued operation goes below it; or
there is none, or it has passed, and every timer is far enough. -/
def Calm (settings : Settings) (w : TimerWheel) (now : Nat) : Prop :=
  if now < w.nextExpiryTime then
    ∀ e, QueuedExpiry w now e → min (w.nextExpiryTime - now) (2 ^ 31 - 1) ≤ e - now
  else ∀ e, Awaited w now e → settings.idleFallbackMs ≤ e - now

section Sleep

variable {settings : Settings} {clock : Clock} {w : TimerWheel}

theorem pollTimeout_of_ahead (hidle : w.runQueue = []) (hahead : w.now clock < w.nextExpiryTime) :
    pollTimeout settings clock w =
      ((min (w.nextExpiryTime - w.now clock) (2 ^ 31 - 1) : Nat) : Int) := by
  have htimeout : w.getNextTimeout clock =
      ((min (w.nextExpiryTime - w.now clock) (2 ^ 31 - 1) : Nat) : Int) := by
    unfold getNextTimeout
    dsimp only
    split_ifs <;> omega
  have hpos : w.getNextTimeout clock > 0 := by omega
  unfold pollTimeout
  dsimp only
  rw [hidle, if_pos List.isEmpty_nil, if_pos hpos, htimeout]

theorem pollTimeout_of_passed (hidle : w.runQueue = [])
    (hpassed : ¬w.now clock < w.nextExpiryTime) :
    pollTimeout settings clock w = (settings.idleFallbackMs : Int) := by
  have htimeout : ¬w.getNextTimeout clock > 0 := by
    unfold getNextTimeout
    dsimp only
    split_ifs <;> omega
  unfold pollTimeout
  dsimp only
  rw [hidle, if_pos List.isEmpty_nil, if_neg htimeout]

/-- A timer in the map is not before the tracked minimum. -/
theorem next_le_of_mapped (h : Inv w) (ht : Tracked w) {id : Nat} {p : Ptr}
    (hmap : w.timerMap id = some p) : w.nextExpiryTime ≤ (w.mem p).expiryTime :=
  ht.le p (h.held id p hmap).2

/-- In every run of the loop in which no timer got the expiry `0`, a poll with
an empty run queue wakes in time exactly if the state before it is calm. -/
theorem wakesInTime_iff (h : Runs settings clock ⟨.poll, w⟩) (hidle : w.runQueue = [])
    (hnever : NeverZero w.log) :
    WakesInTime settings clock w ↔ Calm settings w (w.now clock) := by
  have hinv : Inv w := (inv_new clock).effects h.effects
  have ht : Tracked w := tracked_of_effects h.effects hnever
  unfold WakesInTime Calm
  by_cases hahead : w.now clock < w.nextExpiryTime
  · rw [if_pos hahead, pollTimeout_of_ahead hidle hahead]
    constructor
    · intro hwakes e hqueued
      by_cases hfar : e - w.now clock ≤ 2 ^ 31 - 1
      · exact Int.ofNat_le.mp (hwakes e (.inr hqueued) hfar)
      · omega
    · rintro hcalm e (⟨id, p, hmap, -, rfl⟩ | hqueued) -
      · have := next_le_of_mapped hinv ht hmap
        omega
      · exact Int.ofNat_le.mpr (hcalm e hqueued)
  · rw [if_neg hahead, pollTimeout_of_passed hidle hahead]
    have hbound := settings.representable
    constructor
    · intro hwakes e hawaited
      by_cases hfar : e - w.now clock ≤ 2 ^ 31 - 1
      · exact Int.ofNat_le.mp (hwakes e hawaited hfar)
      · omega
    · intro hcalm e hawaited _
      exact Int.ofNat_le.mpr (hcalm e hawaited)

end Sleep

/-! ## A worker with one timer -/

/-- The clock stands still until the second poll, which reads `1`, or `3` when
the worker is late. -/
def napClock (late : Bool) : Clock where
  reading i := if i ≤ 3 then 0 else if late then 3 else 1
  monotone := advance_monotone (Nat.zero_le _)
  lt := advance_lt (by decide) (by cases late <;> decide)

def napPolled (late : Bool) : TimerWheel :=
  { { TimerWheel.new (napClock late) with runQueue := [5] }.afterReading with runQueue := [] }

def napAdded (late : Bool) : TimerWheel :=
  (((napPolled late).arm 0 shortTimer).addTimer (napClock late) 0).2

def napTicked (late : Bool) : TimerWheel :=
  ((napAdded late).tick (napClock late) 1).getD (napAdded late)

theorem napTicked_runs (late : Bool) :
    Runs Settings.initial (napClock late) ⟨.poll, napTicked late⟩ := by
  have hok : Call.Ok Policy.any (napPolled late) (.addTimer 0 shortTimer) :=
    ⟨rfl, fun _ => by simp [napPolled, afterReading, TimerWheel.new],
      fun _ hmem => by simp [napPolled, afterReading, TimerWheel.new] at hmem⟩
  have hadd : (Call.addTimer 0 shortTimer).exec (napClock late) 0 (napPolled late) =
      some (napAdded late) := rfl
  have haction : Client (napClock late) (napPolled late) (napAdded late) :=
    .call _ hok (by simp) hadd
  have htick : (napAdded late).tick (napClock late) 1 = some (napTicked late) := by
    obtain ⟨w, hw⟩ : ∃ w, (napAdded late).tick (napClock late) 1 = some w := ⟨_, rfl⟩
    rw [napTicked, hw, Option.getD_some]
  have hempty : (napAdded late).runQueue = [] := rfl
  have hpoll : Step Settings.initial (napClock late) (Worker.start (napClock late) [5]) _ :=
    .poll []
  have hdequeue : Step Settings.initial (napClock late) _ ⟨.running 4095, napPolled late⟩ :=
    .dequeue (w := { { TimerWheel.new (napClock late) with runQueue := [5] }.afterReading with
      runQueue := [5] ++ [] }) rfl
  have hclient : Step Settings.initial (napClock late) ⟨.running 4095, napPolled late⟩
      ⟨.running 4095, napAdded late⟩ := .client rfl haction
  have hshared : Step Settings.initial (napClock late) ⟨.sharedTasks, napTicked late⟩
      ⟨.destroy, napTicked late⟩ := by
    simpa using Step.sharedTasks (w := napTicked late) none
  have hinbox : Step Settings.initial (napClock late) ⟨.inbox, napTicked late⟩
      ⟨.cancelKicks, napTicked late⟩ := by
    simpa using Step.inbox (w := napTicked late) []
  refine ⟨[5], ?_⟩
  have hadded := (((ReflTransGen.single hpoll).tail hdequeue).tail hclient).tail .suspend
  have hticked := (hadded.tail (.resumed (.inr hempty))).tail (.tick 1 htick)
  have hserved := (((hticked.tail .called).tail hshared).tail .destroyed).tail .freed
  exact ((hserved.tail hinbox).tail .kicked).tail .again

theorem napTicked_fields (late : Bool) :
    (napTicked late).nextExpiryTime = 2 ∧ (napTicked late).runQueue = [] ∧
      (napTicked late).timerOperationsQueue = [] ∧
      (napTicked late).log = [.drained 1 2 0, .added 1 0 (.raw 7 9)] :=
  ⟨rfl, rfl, rfl, rfl⟩

theorem napTicked_neverZero (late : Bool) : NeverZero (napTicked late).log := by
  intro id time hmem
  rw [(napTicked_fields late).2.2.2] at hmem
  simp at hmem

/-- One millisecond before the expiry the worker sleeps for one millisecond. -/
theorem punctual_nap :
    WakesInTime Settings.initial (napClock false) (napTicked false) ∧
      pollTimeout Settings.initial (napClock false) (napTicked false) = 1 := by
  obtain ⟨hnext, hidle, hqueue, -⟩ := napTicked_fields false
  have hnow : (napTicked false).now (napClock false) = 1 := rfl
  have hcalm : Calm Settings.initial (napTicked false) ((napTicked false).now (napClock false)) := by
    unfold Calm
    rw [if_pos (by rw [hnow, hnext]; decide)]
    intro e he
    cases he with
    | add waiting =>
        have hmem := waiting.1
        rw [hqueue] at hmem
        simp at hmem
    | update queued =>
        rw [hqueue] at queued
        simp at queued
  exact ⟨(wakesInTime_iff (napTicked_runs false) hidle (napTicked_neverZero false)).mpr hcalm,
    by decide⟩

/-- One millisecond after the expiry it sleeps for `idle_fallback_ms`. -/
theorem late_nap :
    ¬∀ (settings : Settings) (clock : Clock) (w : TimerWheel),
      Runs settings clock ⟨.poll, w⟩ → w.runQueue = [] → WakesInTime settings clock w := by
  intro hall
  have hwakes := hall Settings.initial (napClock true) (napTicked true) (napTicked_runs true) rfl
  have hawaited : Awaited (napTicked true) ((napTicked true).now (napClock true)) 2 :=
    .inl ⟨1, 0, rfl, rfl, rfl⟩
  have hle := hwakes 2 hawaited (by decide)
  have htimeout : pollTimeout Settings.initial (napClock true) (napTicked true) = 50 := rfl
  have hnow : (napTicked true).now (napClock true) = 3 := rfl
  rw [htimeout, hnow] at hle
  exact absurd hle (by decide)

end Uvent.System
