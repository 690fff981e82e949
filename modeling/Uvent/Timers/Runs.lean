import Uvent.Timers.Steps

/-!
# Runs of the wheel

A run is any sequence of calls on a new wheel.  A property that every effect
keeps holds in every state a run reaches.
-/

namespace Uvent.Timers

open TimerWheel Relation

inductive Call where
  | addTimer (p : Ptr) (t : Timer)
  | updateTimer (timerId newDuration : Nat)
  | removeTimer (timerId : Nat) (done : Option (Nat × Nat))
  | cancelTimer (timerId : Nat)
  | cancelTimerDetach (timerId : Nat)
  | getNextTimeout
  | tick

/-- The wheel after a call; `none` when `tick` does not return with this fuel. -/
def Call.exec (clock : Clock) (fuel : Nat) (w : TimerWheel) : Call → Option TimerWheel
  | .addTimer p t => some ((w.arm p t).addTimer clock p).2
  | .updateTimer id newDur => some (w.updateTimer id newDur)
  | .removeTimer id done => some (w.removeTimer id done)
  | .cancelTimer id => some (w.cancelTimer id).2
  | .cancelTimerDetach id => some (w.cancelTimerDetach id).2
  | .getNextTimeout => some w.afterReading
  | .tick => w.tick clock fuel

def Call.Ok (policy : Policy) (w : TimerWheel) : Call → Prop
  | .addTimer p t => AddOk w p t
  | .removeTimer id _ => policy.remove w id
  | .cancelTimer id => policy.cancel w id
  | .cancelTimerDetach id => policy.detach w id
  | _ => True

inductive Reachable (policy : Policy) (clock : Clock) : TimerWheel → Prop where
  | start : Reachable policy clock (TimerWheel.new clock)
  | step {w w' : TimerWheel} {call : Call} {fuel : Nat} (hw : Reachable policy clock w)
      (ok : call.Ok policy w) (hrun : call.exec clock fuel w = some w') :
      Reachable policy clock w'

variable {policy : Policy} {clock : Clock} {w w' : TimerWheel}

/-- A call other than `tick` lets no time pass. -/
theorem Call.exec_effects {call : Call} {fuel : Nat} (h : Inv w) (ok : call.Ok policy w)
    (hidle : policy.advancing ∨ call ≠ .tick) (hrun : call.exec clock fuel w = some w') :
    Effects policy w w' := by
  cases call with
  | tick =>
      rcases hidle with adv | hne
      · exact tick_effects adv clock h hrun
      · exact absurd rfl hne
  | addTimer p t =>
      obtain rfl := Option.some.inj hrun
      exact .single (addTimer_effect clock ok)
  | updateTimer id newDur =>
      obtain rfl := Option.some.inj hrun
      exact .single (updateTimer_effect id newDur)
  | removeTimer id done =>
      obtain rfl := Option.some.inj hrun
      exact .single (removeTimer_effect done ok)
  | cancelTimer id =>
      obtain rfl := Option.some.inj hrun
      exact cancelTimer_effects h ok
  | cancelTimerDetach id =>
      obtain rfl := Option.some.inj hrun
      exact cancelTimerDetach_effects h ok
  | getNextTimeout =>
      obtain rfl := Option.some.inj hrun
      exact .single (afterReading_effect w)

theorem Reachable.inv (adv : policy.advancing) (h : Reachable policy clock w) : Inv w := by
  induction h with
  | start => exact inv_new clock
  | step _ ok hrun ih => exact ih.effects (Call.exec_effects ih ok (.inl adv) hrun)

theorem Reachable.effects (adv : policy.advancing) (h : Reachable policy clock w) :
    Effects policy (TimerWheel.new clock) w := by
  induction h with
  | start => exact .refl
  | step hw ok hrun ih => exact ih.trans (Call.exec_effects (hw.inv adv) ok (.inl adv) hrun)

/-- What every effect keeps, every run keeps. -/
theorem Reachable.induct {J : TimerWheel → Prop} (adv : policy.advancing)
    (start : J (TimerWheel.new clock))
    (effect : ∀ {w w' : TimerWheel}, Inv w → J w → Effect policy w w' → J w')
    (h : Reachable policy clock w) : J w := by
  have heffects : ∀ {w w' : TimerWheel}, Inv w → J w → Effects policy w w' → J w' := by
    intro w w' hinv hj heffs
    induction heffs with
    | refl => exact hj
    | tail hpre heff ih => exact effect (hinv.effects hpre) ih heff
  induction h with
  | start => exact start
  | step hw ok hrun ih =>
      have hinv := hw.inv adv
      exact heffects hinv ih (Call.exec_effects hinv ok (.inl adv) hrun)

/-! ## A short run -/

/-- Two readings of `0`, for the wheel and for the first `addTimer`, then `3`. -/
def shortClock : Clock where
  reading i := if i ≤ 1 then 0 else 3
  monotone := advance_monotone (by decide)
  lt := advance_lt (by decide) (by decide)

def shortTimer : Timer := ⟨0, 2, none, some 7, 9, true, true, 0, 0, 0, 0⟩

def shortAdded : TimerWheel :=
  (((TimerWheel.new shortClock).arm 0 shortTimer).addTimer shortClock 0).2

theorem shortAdded_reachable : Reachable policy shortClock shortAdded := by
  have hadd : Call.Ok policy (TimerWheel.new shortClock) (.addTimer 0 shortTimer) :=
    ⟨rfl, fun _ => by simp [TimerWheel.new], fun _ hmem => by simp [TimerWheel.new] at hmem⟩
  have hissue : (Call.addTimer 0 shortTimer).exec shortClock 0 (TimerWheel.new shortClock) =
      some shortAdded := rfl
  exact .step .start hadd hissue

/-! ## A run with timers of several levels -/

/-- Readings of `0` for the wheel and for three calls of `addTimer`, then `3`. -/
def mixedClock : Clock where
  reading i := if i ≤ 3 then 0 else 3
  monotone := advance_monotone (by decide)
  lt := advance_lt (by decide) (by decide)

/-- A raw callback in two milliseconds, a coroutine in three and a raw callback in `300`. -/
def mixedTimer : Ptr → Timer
  | 0 => shortTimer
  | 1 => ⟨0, 3, some 5, none, 0, true, true, 0, 0, 0, 0⟩
  | _ => ⟨0, 300, none, some 8, 1, true, true, 0, 0, 0, 0⟩

def mixedWheel : Nat → TimerWheel
  | 0 => .new mixedClock
  | p + 1 => (((mixedWheel p).arm p (mixedTimer p)).addTimer mixedClock p).2

theorem mixedWheel_reachable : Reachable policy mixedClock (mixedWheel 3) := by
  have hzero : Call.Ok policy (mixedWheel 0) (.addTimer 0 (mixedTimer 0)) :=
    ⟨rfl, fun _ => by simp [mixedWheel, TimerWheel.new],
      fun _ hmem => by simp [mixedWheel, TimerWheel.new] at hmem⟩
  have hone : Call.Ok policy (mixedWheel 1) (.addTimer 1 (mixedTimer 1)) := by
    refine ⟨rfl, fun id heq => ?_, fun id hmem => ?_⟩
    · cases heq
    · change Op.add 1 id ∈ [Op.add 0 1] at hmem
      simp at hmem
  have htwo : Call.Ok policy (mixedWheel 2) (.addTimer 2 (mixedTimer 2)) := by
    refine ⟨rfl, fun id heq => ?_, fun id hmem => ?_⟩
    · cases heq
    · change Op.add 2 id ∈ [Op.add 0 1, Op.add 1 2] at hmem
      simp at hmem
  have hadd : ∀ p, (Call.addTimer p (mixedTimer p)).exec mixedClock 0 (mixedWheel p) =
      some (mixedWheel (p + 1)) := fun _ => rfl
  exact .step (.step (.step .start hzero (hadd 0)) hone (hadd 1)) htwo (hadd 2)

end Uvent.Timers
