import Uvent.Sync.MutexResumption
import Uvent.Sync.SuspensionRuns

/-!
# What `await_suspend` does after the publication

Without `UVENT_ENABLE_REUSEADDR` a woken coroutine goes to the queue that all workers
share, and a timer puts it into the queue of the worker that ticks.  Every `await_suspend`
arms its cancel hook behind the publication of its node or timer, so that another worker
may have resumed the coroutine before.  No worker has where nobody puts the handle of a
coroutine into a run queue before its `await_suspend` has returned.
-/

namespace Uvent.Sync

/-! ### Sleeps -/

namespace Sleep

/-- Where a `SleepAwaiter` is.  The steps from `store` to `disarm` come behind `addTimer`;
`ended` is an await that does not suspend. -/
inductive SleepPc where
  | idle
  | check
  | add
  | store
  | arm
  | cancel
  | disarm
  | suspended
  | ended
  deriving DecidableEq, Repr

/-- The timer: its `ADD` is in the queue of operations, marked by `cancelTimerDetach` or
not, or it is in the wheel, or it is gone. -/
inductive TimerState where
  | unbound
  | pending (detached : Bool)
  | linked
  | gone
  deriving DecidableEq, Repr

structure SleepAwaiter where
  pc : SleepPc
  requested : Bool
  hook : Bool
  timer : TimerState
  cancelled : Bool
  queued : Nat
  resumed : Nat
  deriving DecidableEq, Repr

def SleepAwaiter.new : SleepAwaiter := ⟨.idle, false, false, .unbound, false, 0, 0⟩

abbrev State := Nat → SleepAwaiter

def State.new : State := fun _ => .new

def TimerState.detach : TimerState → Bool × TimerState
  | .pending _ => (true, .pending true)
  | .linked => (true, .gone)
  | .unbound => (false, .unbound)
  | .gone => (false, .gone)

def TimerState.drain : TimerState → TimerState
  | .pending true => .gone
  | .pending false => .linked
  | t => t

def SleepAwaiter.check (a : SleepAwaiter) : SleepAwaiter :=
  if a.requested then { a with pc := .ended, cancelled := true } else { a with pc := .add }

/-- `bind` and `addTimer`. -/
def SleepAwaiter.addTimer (a : SleepAwaiter) : SleepAwaiter :=
  { a with pc := .store, timer := .pending false }

def SleepAwaiter.armCancel (a : SleepAwaiter) : SleepAwaiter :=
  { a with pc := if a.requested then .cancel else .suspended, hook := true }

def SleepAwaiter.cancelTimer (a : SleepAwaiter) : SleepAwaiter :=
  match a.timer.detach with
  | (true, t) => { a with pc := .disarm, timer := t }
  | (false, t) => { a with pc := .suspended, timer := t }

/-- `disarm_cancel`, and the end of the await. -/
def SleepAwaiter.disarm (a : SleepAwaiter) : SleepAwaiter :=
  { a with pc := .ended, hook := false, cancelled := true }

/-- A step of the build without `UVENT_ENABLE_REUSEADDR`, where cancellation kicks nobody. -/
inductive Step (s : State) : State → Prop where
  | request (c : Nat) : Step s (Function.update s c { s c with requested := true })
  | call (c : Nat) (h : (s c).pc = .idle) : Step s (Function.update s c { s c with pc := .check })
  | check (c : Nat) (h : (s c).pc = .check) : Step s (Function.update s c (s c).check)
  | addTimer (c : Nat) (h : (s c).pc = .add) : Step s (Function.update s c (s c).addTimer)
  | storeId (c : Nat) (h : (s c).pc = .store) : Step s (Function.update s c { s c with pc := .arm })
  | armCancel (c : Nat) (h : (s c).pc = .arm) : Step s (Function.update s c (s c).armCancel)
  | cancelTimer (c : Nat) (h : (s c).pc = .cancel) : Step s (Function.update s c (s c).cancelTimer)
  | disarm (c : Nat) (h : (s c).pc = .disarm) : Step s (Function.update s c (s c).disarm)
  | drain (c : Nat) : Step s (Function.update s c { s c with timer := (s c).timer.drain })
  | fire (c : Nat) (h : (s c).timer = .linked) :
      Step s (Function.update s c { s c with timer := .gone, queued := (s c).queued + 1 })
  | resume (c : Nat) (h : 0 < (s c).queued) :
      Step s (Function.update s c
        { s c with queued := (s c).queued - 1, resumed := (s c).resumed + 1, hook := false })

inductive Runs : State → Prop where
  | start : Runs .new
  | step {s s' : State} (hs : Runs s) (h : Step s s') : Runs s'

def SleepPc.publishing : SleepPc → Bool
  | .store | .arm | .cancel | .disarm => true
  | _ => false

/-- No worker has resumed a coroutine whose `await_suspend` still accesses it. -/
def Untouched (s : State) : Prop := ∀ c, 0 < (s c).resumed → (s c).pc.publishing = false

/-- Only coroutines whose `await_suspend` has returned get into a run queue. -/
def Careful (s s' : State) : Prop := ∀ c, (s c).queued < (s' c).queued → (s c).pc = .suspended

inductive CarefulRuns : State → Prop where
  | start : CarefulRuns .new
  | step {s s' : State} (hs : CarefulRuns s) (h : Step s s') (hcareful : Careful s s') :
      CarefulRuns s'

def TimerState.live : TimerState → Bool
  | .pending false | .linked => true
  | _ => false

/-- Behind `addTimer`, and not cancelled. -/
def SleepPc.exposed : SleepPc → Bool
  | .store | .arm | .cancel | .suspended => true
  | _ => false

def SleepAwaiter.Exposed (a : SleepAwaiter) : Prop := a.timer.live = true → a.pc.exposed = true

def SleepAwaiter.Quiet (a : SleepAwaiter) : Prop := a.pc ≠ .suspended → a.queued = 0 ∧ a.resumed = 0

section Steps

variable {s s' : State} {c : Nat} {a : SleepAwaiter}

theorem forall_update {P : SleepAwaiter → Prop} (h : ∀ d, P (s d)) (ha : P a) (d : Nat) :
    P (Function.update s c a d) := by
  by_cases hd : d = c
  · subst hd
    rw [Function.update_self]
    exact ha
  · rw [Function.update_of_ne hd]
    exact h d

theorem Careful.one (h : a.queued ≤ (s c).queued ∨ (s c).pc = .suspended) :
    Careful s (Function.update s c a) := by
  intro d hqueued
  by_cases hd : d = c
  · subst hd
    rw [Function.update_self] at hqueued
    exact h.resolve_left (by omega)
  · rw [Function.update_of_ne hd] at hqueued
    exact absurd hqueued (Nat.lt_irrefl _)

theorem exposed_cancelTimer : (s c).cancelTimer.Exposed := by
  unfold SleepAwaiter.cancelTimer
  cases htimer : (s c).timer <;> exact nofun

theorem exposed_step (h : Step s s') (hs : ∀ d, (s d).Exposed) (d : Nat) : (s' d).Exposed := by
  cases h with
  | request c =>
    refine forall_update hs ?_ d
    exact fun hl => hs c hl
  | call c h | disarm c h =>
    refine forall_update hs (fun hl => ?_) d
    have hpc := hs c hl
    rw [h] at hpc
    cases hpc
  | check c h =>
    refine forall_update hs (fun hl => ?_) d
    have hpc := hs c (by unfold SleepAwaiter.check at hl; split at hl <;> exact hl)
    rw [h] at hpc
    cases hpc
  | addTimer c h | storeId c h => exact forall_update hs (fun _ => rfl) d
  | armCancel c h =>
    refine forall_update hs (fun _ => ?_) d
    unfold SleepAwaiter.armCancel
    split <;> rfl
  | cancelTimer c h => exact forall_update hs exposed_cancelTimer d
  | drain c =>
    refine forall_update hs (fun hl => ?_) d
    refine hs c ?_
    replace hl : (s c).timer.drain.live = true := hl
    match htimer : (s c).timer with
    | .pending false | .linked => rfl
    | .pending true | .unbound | .gone =>
      rw [htimer] at hl
      cases hl
  | fire c h =>
    refine forall_update hs ?_ d
    exact nofun
  | resume c h =>
    refine forall_update hs ?_ d
    exact fun hl => hs c hl

theorem exposed_of_runs (h : Runs s) (c : Nat) : (s c).Exposed := by
  induction h generalizing c with
  | start => exact nofun
  | step _ h ih => exact exposed_step h ih c

theorem quiet_step (h : Step s s') (hcareful : Careful s s') (hs : ∀ d, (s d).Quiet) (d : Nat) :
    (s' d).Quiet := by
  have hmoves : ∀ {c : Nat} {a : SleepAwaiter}, (s c).pc ≠ .suspended → a.queued = (s c).queued →
      a.resumed = (s c).resumed → a.Quiet := by
    intro c a hpc hqueued hresumed _
    rw [hqueued, hresumed]
    exact hs c hpc
  cases h with
  | request c | drain c =>
    refine forall_update hs ?_ d
    exact fun hpc => hs c hpc
  | call c h | addTimer c h | storeId c h | armCancel c h | disarm c h =>
    exact forall_update hs (hmoves (by rw [h]; nofun) (by rfl) (by rfl)) d
  | check c h =>
    refine forall_update hs (hmoves (by rw [h]; nofun) ?_ ?_) d
    · unfold SleepAwaiter.check
      split <;> rfl
    · unfold SleepAwaiter.check
      split <;> rfl
  | cancelTimer c h =>
    refine forall_update hs (hmoves (by rw [h]; nofun) ?_ ?_) d
    · unfold SleepAwaiter.cancelTimer
      split <;> rfl
    · unfold SleepAwaiter.cancelTimer
      split <;> rfl
  | fire c h =>
    have hpc : (s c).pc = .suspended := by
      refine hcareful c ?_
      rw [Function.update_self]
      exact Nat.lt_succ_self _
    refine forall_update hs ?_ d
    exact fun hne => absurd hpc hne
  | resume c h =>
    refine forall_update hs (fun hpc => ?_) d
    have hzero := (hs c hpc).1
    omega

theorem quiet_of_careful (h : CarefulRuns s) (c : Nat) : (s c).Quiet := by
  induction h generalizing c with
  | start => exact fun _ => ⟨rfl, rfl⟩
  | step _ h hcareful ih => exact quiet_step h hcareful ih c

theorem CarefulRuns.runs (h : CarefulRuns s) : Runs s := by
  induction h with
  | start => exact .start
  | step _ h _ ih => exact ih.step h

theorem untouched_of_careful (h : CarefulRuns s) : Untouched s := by
  intro c hpos
  by_contra hpc
  have hne : (s c).pc ≠ .suspended := by
    intro hs
    rw [hs] at hpc
    exact hpc rfl
  have hzero := (quiet_of_careful h c hne).2
  omega

/-- Where a handle gets into a run queue too early, the next step may resume it. -/
theorem touched_of_careless (h : Runs s) (hstep : Step s s') (hcareless : ¬ Careful s s') :
    ∃ s'', Step s' s'' ∧ ¬ Untouched s'' := by
  obtain ⟨c, hqueued, hpc⟩ : ∃ c, (s c).queued < (s' c).queued ∧ (s c).pc ≠ .suspended := by
    unfold Careful at hcareless
    push Not at hcareless
    exact hcareless
  have hsame : ∀ {d : Nat} {a : SleepAwaiter}, a.queued ≤ (s d).queued →
      ¬ (s c).queued < (Function.update s d a c).queued := by
    intro d a hle
    by_cases hd : c = d
    · subst hd
      rw [Function.update_self]
      omega
    · rw [Function.update_of_ne hd]
      omega
  have hfired : (s c).timer = .linked ∧ (s' c).pc = (s c).pc := by
    cases hstep with
    | fire d hlinked =>
      by_cases hd : c = d
      · subst hd
        exact ⟨hlinked, by rw [Function.update_self]⟩
      · rw [Function.update_of_ne hd] at hqueued
        exact absurd hqueued (Nat.lt_irrefl _)
    | request d | call d _ | addTimer d _ | storeId d _ | armCancel d _ | disarm d _ | drain d =>
      exact absurd hqueued (hsame (Nat.le_of_eq (by rfl)))
    | resume d _ => exact absurd hqueued (hsame (Nat.sub_le ..))
    | check d _ =>
      refine absurd hqueued (hsame (Nat.le_of_eq ?_))
      unfold SleepAwaiter.check
      split <;> rfl
    | cancelTimer d _ =>
      refine absurd hqueued (hsame (Nat.le_of_eq ?_))
      unfold SleepAwaiter.cancelTimer
      split <;> rfl
  obtain ⟨hlinked, hpc'⟩ := hfired
  have hexposed := exposed_of_runs h c (by rw [hlinked]; rfl)
  refine ⟨_, .resume c (by omega), fun huntouched => ?_⟩
  have hfalse := huntouched c (by rw [Function.update_self]; exact Nat.succ_pos _)
  rw [Function.update_self] at hfalse
  replace hfalse : (s' c).pc.publishing = false := hfalse
  rw [hpc'] at hfalse
  generalize (s c).pc = pc at hexposed hfalse hpc
  cases pc <;> simp_all [SleepPc.exposed, SleepPc.publishing]

end Steps

end Sleep

/-! ### Waiters -/

namespace Suspension

variable {Λ : Type}

def Untouched (s : State Λ) : Prop := ∀ t, (s.coros t).early = false

/-- Only coroutines whose `await_suspend` has returned get into a run queue. -/
def Careful (s s' : State Λ) : Prop :=
  ∀ t, (s.coros t).queued < (s'.coros t).queued → ∃ w, (s.coros t).phase = .suspended w

/-- What a step does with the handle of a coroutine: it leaves the phase, or it is one of
the coroutine before it is suspended or behind it, or the coroutine is resumed. -/
inductive Coro.Moves (c c' : Coro Λ) : Prop where
  | stays (hphase : c'.phase = c.phase)
  | advances (hphase : ∀ w, c.phase ≠ .suspended w) (hqueued : c'.queued = c.queued)
  | resumes (hqueued : c'.queued = c.queued - 1)

section States

variable {s : State Λ} {t : Nat} {c' : Coro Λ}

theorem State.moves {s' : State Λ} (hcoros : s'.coros = Function.update s.coros t c')
    (h : (s.coros t).Moves c') (t' : Nat) : (s.coros t').Moves (s'.coros t') := by
  rw [hcoros]
  by_cases ht : t' = t
  · subst ht
    rw [Function.update_self]
    exact h
  · rw [Function.update_of_ne ht]
    exact .stays rfl

theorem State.advances {s' : State Λ} (hcoros : s'.coros = Function.update s.coros t c')
    {p : Phase Λ} (hphase : (s.coros t).phase = p) (hp : ∀ w, p ≠ .suspended w)
    (hqueued : c'.queued = (s.coros t).queued) (t' : Nat) : (s.coros t').Moves (s'.coros t') :=
  State.moves hcoros (.advances (fun w hw => hp w (hphase.symm.trans hw)) hqueued) t'

theorem State.fire_phase (s : State Λ) (n : Node) (t : Nat) :
    ((s.fire n).2.coros t).phase = (s.coros t).phase := by
  by_cases hw : (s.coros n.coro).winner = .none
  · rw [State.fire_none hw]
    by_cases ht : t = n.coro
    · subst ht
      simp [State.set, Coro.enqueue]
    · simp [State.set, Function.update_of_ne ht]
  · rw [State.fire_of_ne hw]

theorem State.onFire_moves (s : State Λ) (t k t' : Nat) :
    (s.coros t').Moves ((s.onFire t k).coros t') := by
  simp only [State.onFire]
  split
  · exact .stays rfl
  · exact .stays rfl
  · exact State.moves (by rfl) (.stays (by rfl)) t'
  · split <;> exact State.moves (by rfl) (.stays (by rfl)) t'
  · split <;> exact State.moves (by rfl) (.stays (by rfl)) t'
  · exact State.moves (by rfl) (.stays (by rfl)) t'
  · exact State.moves (by rfl) (.stays (by rfl)) t'

variable [DecidableEq Λ]

theorem State.wakeLoop_phase (s : State Λ) (l : Λ) (fuel count : Nat) (t : Nat) :
    ((State.wakeLoop l fuel count s).coros t).phase = (s.coros t).phase := by
  induction fuel generalizing count s with
  | zero => rfl
  | succ fuel ih =>
    cases count with
    | zero => rfl
    | succ count =>
      have hpop : ((s.popFire l).2.coros t).phase = (s.coros t).phase := by
        unfold State.popFire
        match (s.lists l).popFrontLocked with
        | (none, _) => rfl
        | (some n, nodes) => exact (s.setList l nodes).fire_phase n t
      rw [State.wakeLoop_succ]
      exact (ih _ _).trans hpop

theorem State.detach_moves {ops : List (Place Λ)} {why : Why} {k : Nat} {part : Part}
    (hphase : (s.coros t).phase = .detach ops why k part) (t' : Nat) :
    (s.coros t').Moves ((s.detach t ops why k part).coros t') := by
  unfold State.detach
  match ops[k]? with
  | none => cases why <;> exact State.advances (by rfl) hphase nofun (by rfl) t'
  | some (.listed l) => exact State.advances (by rfl) hphase nofun (by rfl) t'
  | some .sleep =>
    cases part with
    | exchange | loadFired => exact State.advances (by rfl) hphase nofun (by rfl) t'
    | spin =>
      simp only
      split
      · exact State.advances (by rfl) hphase nofun (by rfl) t'
      · exact .stays rfl

theorem State.attach_moves {w : Wait Λ} {k : Nat} {p : Phase Λ} (hphase : (s.coros t).phase = p)
    (hp : ∀ w, p ≠ .suspended w) (t' : Nat) :
    (s.coros t').Moves ((s.attach t w k).coros t') := by
  unfold State.attach
  split <;> exact State.advances (by rfl) hphase hp (by rfl) t'

theorem State.withdraw_moves {w : Wait Λ} {p : Phase Λ} (hphase : (s.coros t).phase = p)
    (hp : ∀ w, p ≠ .suspended w) (t' : Nat) :
    (s.coros t').Moves ((s.withdraw t w).coros t') := by
  cases w with
  | op l =>
    rw [State.withdraw_op]
    refine State.advances rfl hphase hp ?_ t'
    split <;> rfl
  | select ops =>
    simp only [State.withdraw]
    split <;> exact State.advances (by rfl) hphase hp (by rfl) t'

omit [DecidableEq Λ] in
theorem State.readWinner_moves {ops : List (Place Λ)} {p : Phase Λ}
    (hphase : (s.coros t).phase = p) (hp : ∀ w, p ≠ .suspended w) (t' : Nat) :
    (s.coros t').Moves ((s.readWinner t ops).coros t') := by
  simp only [State.readWinner]
  split <;> exact State.advances (by rfl) hphase hp (by rfl) t'

theorem State.onCancel_moves (s : State Λ) (t : Nat) (w : Wait Λ) (t' : Nat) :
    (s.coros t').Moves ((s.onCancel t w).coros t') := by
  cases w with
  | op l =>
    rw [State.onCancel_op]
    refine State.moves rfl (.stays ?_) t'
    split <;> rfl
  | select ops =>
    simp only [State.onCancel]
    split <;> exact State.moves (by rfl) (.stays (by rfl)) t'

theorem moves_of_step {s' : State Λ} (hstep : Step true s s') (t' : Nat) :
    (s.coros t').Moves (s'.coros t') := by
  cases hstep with
  | request t => exact State.moves (by rfl) (.stays (by rfl)) t'
  | start t w hphase => exact State.advances (by rfl) hphase nofun (by rfl) t'
  | check t w hphase =>
    refine State.advances (by rfl) hphase nofun ?_ t'
    split <;> rfl
  | attach t w k hphase => exact State.attach_moves hphase nofun t'
  | startTimer t w k hphase => exact State.advances (by rfl) hphase nofun (by rfl) t'
  | look t w k wait hphase _ => exact State.advances (by rfl) hphase nofun (by rfl) t'
  | undo t l hphase =>
    rw [State.undo_eq]
    refine State.advances rfl hphase nofun ?_ t'
    split <;> rfl
  | arm t w hphase =>
    refine State.advances (by rfl) hphase nofun ?_ t'
    split <;> rfl
  | withdraw t w hphase => exact State.withdraw_moves hphase nofun t'
  | detach t ops why k part hphase => exact State.detach_moves hphase t'
  | readWinner t ops hphase => exact State.readWinner_moves hphase nofun t'
  | resume t w _ _ => exact State.moves (by rfl) (.resumes (by rfl)) t'
  | resumeEarly t hbuild _ _ => cases hbuild
  | resumed t l hphase => exact State.advances (by rfl) hphase nofun (by rfl) t'
  | onCancel t w _ _ => exact s.onCancel_moves t w t'
  | storeOwn t _ => exact State.moves (by rfl) (.stays (by rfl)) t'
  | enqueueSelf t _ => exact State.moves (by rfl) (.stays (by rfl)) t'
  | wake l count => exact .stays (s.wakeLoop_phase l _ count t')
  | onFire t k => exact s.onFire_moves t k t'
  | finalize t k _ _ => exact State.moves (by rfl) (.stays (by rfl)) t'

/-- As long as no coroutine in `await_suspend` is in a run queue, the builds agree. -/
theorem Step.forget {s' : State Λ} (h : Step false s s')
    (hquiet : ∀ t, (s.coros t).phase.suspending = true → (s.coros t).queued = 0) : Step true s s' := by
  cases h with
  | request t => exact .request t
  | start t w h => exact .start t w h
  | check t w h => exact .check t w h
  | attach t w k h => exact .attach t w k h
  | startTimer t w k h => exact .startTimer t w k h
  | look t w k wait h hsleep => exact .look t w k wait h hsleep
  | undo t l h => exact .undo t l h
  | arm t w h => exact .arm t w h
  | withdraw t w h => exact .withdraw t w h
  | detach t ops why k part h => exact .detach t ops why k part h
  | readWinner t ops h => exact .readWinner t ops h
  | resume t w h hqueued => exact .resume t w h hqueued
  | resumeEarly t _ h hqueued =>
    have hzero := hquiet t h
    omega
  | resumed t l h => exact .resumed t l h
  | onCancel t w hbuild _ => cases hbuild
  | storeOwn t h => exact .storeOwn t h
  | enqueueSelf t h => exact .enqueueSelf t h
  | wake l count => exact .wake l count
  | onFire t k => exact .onFire t k
  | finalize t k h htimer => exact .finalize t k h htimer

omit [DecidableEq Λ] in
theorem Careful.one {s' : State Λ} (hcoros : s'.coros = Function.update s.coros t c')
    (h : c'.queued ≤ (s.coros t).queued ∨ ∃ w, (s.coros t).phase = .suspended w) : Careful s s' := by
  intro t' hqueued
  rw [hcoros] at hqueued
  by_cases ht : t' = t
  · subst ht
    rw [Function.update_self] at hqueued
    exact h.resolve_left (by omega)
  · rw [Function.update_of_ne ht] at hqueued
    exact absurd hqueued (Nat.lt_irrefl _)

inductive CarefulRuns : State Λ → Prop where
  | start : CarefulRuns .new
  | step {s s' : State Λ} (hs : CarefulRuns s) (h : Step false s s') (hcareful : Careful s s') :
      CarefulRuns s'

def Parked (s : State Λ) : Prop :=
  ∀ t, 0 < (s.coros t).queued → ∃ w, (s.coros t).phase = .suspended w

omit [DecidableEq Λ] in
theorem Parked.quiet (h : Parked s) (t : Nat) (hphase : (s.coros t).phase.suspending = true) :
    (s.coros t).queued = 0 := by
  by_contra hpos
  obtain ⟨w, hw⟩ := h t (Nat.pos_of_ne_zero hpos)
  rw [hw] at hphase
  cases hphase

omit [DecidableEq Λ] in
/-- A handle is in the run queues once, and its coroutine is in `await_suspend` or behind
it. -/
theorem Coro.Ok.queued {c : Coro Λ} {link : Nat → Λ → Prop} (h : c.Ok link) (hpos : 0 < c.queued) :
    c.queued = 1 ∧ (c.phase.suspending = true ∨ ∃ w, c.phase = .suspended w) := by
  have hopen : c.Open link → c.queued = 1 := by
    intro ho
    obtain ⟨who, haccount, -⟩ := ho.account
    rw [ho.queued]
    exact (haccount.wakes_eq (ho.queued ▸ hpos)).1
  have hshut : c.Shut → False := fun hs => absurd hs.queued (Nat.ne_of_gt hpos)
  have hnow := h.now
  match hphase : c.phase with
  | .running | .check _ | .resumed _ =>
    rw [hphase] at hnow
    exact (hshut hnow.1).elim
  | .attach .. | .startTimer .. | .look .. | .undo .. | .arm .. | .withdraw .. | .readWinner .. =>
    rw [hphase] at hnow
    exact ⟨hopen hnow.1, .inl rfl⟩
  | .suspended w =>
    rw [hphase] at hnow
    exact ⟨hopen hnow.1, .inr ⟨w, rfl⟩⟩
  | .detach _ why _ _ =>
    rw [hphase] at hnow
    cases why with
    | undo => exact ⟨hopen hnow.1, .inl rfl⟩
    | giveUp | resume | again => exact (hshut hnow.1).elim

theorem parked_step {s' : State Λ} (hinv : Inv s) (h : Step true s s') (hcareful : Careful s s')
    (hs : Parked s) : Parked s' := by
  intro t hpos
  cases moves_of_step h t with
  | stays hphase =>
    rw [hphase]
    rcases Nat.lt_or_ge (s.coros t).queued (s'.coros t).queued with hlt | hge
    · exact hcareful t hlt
    · exact hs t (by omega)
  | advances hphase hqueued =>
    obtain ⟨w, hw⟩ := hs t (hqueued ▸ hpos)
    exact absurd hw (hphase w)
  | resumes hqueued =>
    have hone := ((hinv.coros t).queued (by omega)).1
    omega

theorem CarefulRuns.spec (h : CarefulRuns s) : Runs true s ∧ Parked s ∧ Untouched s := by
  induction h with
  | start => exact ⟨.start, nofun, fun _ => rfl⟩
  | step _ h hcareful ih =>
    obtain ⟨hruns, hparked, huntouched⟩ := ih
    have hstep := h.forget hparked.quiet
    have hinv := inv_of_runs hruns
    refine ⟨hruns.step hstep, parked_step hinv hstep hcareful hparked, fun t => ?_⟩
    exact (keeps_of_step hinv hstep t).early.trans (huntouched t)

theorem touched_of_careless {s' : State Λ} (h : CarefulRuns s) (hstep : Step false s s')
    (hcareless : ¬ Careful s s') : ∃ s'', Step false s' s'' ∧ ¬ Untouched s'' := by
  obtain ⟨hruns, hparked, -⟩ := h.spec
  have hstep' := hstep.forget hparked.quiet
  obtain ⟨t, hqueued, hnot⟩ : ∃ t, (s.coros t).queued < (s'.coros t).queued ∧
      ∀ w, (s.coros t).phase ≠ .suspended w := by
    unfold Careful at hcareless
    push Not at hcareless
    exact hcareless
  have hphase : (s'.coros t).phase = (s.coros t).phase := by
    cases moves_of_step hstep' t with
    | stays hphase => exact hphase
    | advances _ hsame => omega
    | resumes hsame => omega
  have hinv := inv_step (inv_of_runs hruns) hstep'
  obtain ⟨-, hsuspending | ⟨w, hw⟩⟩ := (hinv.coros t).queued (by omega)
  · refine ⟨_, .resumeEarly t rfl hsuspending (by omega), fun huntouched => ?_⟩
    have hearly := huntouched t
    simp [State.set] at hearly
  · rw [hphase] at hw
    exact absurd hw (hnot w)

end States

end Suspension

/-! ### The mutex -/

namespace Mutex

/-- No worker has resumed a coroutine whose `await_suspend` still accesses it. -/
def Untouched (s : AsyncMutex) : Prop :=
  ∀ c, 0 < (s.calls c).resumed → (s.calls c).pc ≠ .arm ∧ (s.calls c).pc ≠ .remove

/-- Only coroutines whose `await_suspend` has returned get into a run queue. -/
def Careful (s s' : AsyncMutex) : Prop :=
  ∀ c, (s.calls c).queued < (s'.calls c).queued → (s.calls c).pc = .suspended

inductive CarefulRuns : AsyncMutex → Prop where
  | start : CarefulRuns .new
  | step {s s' : AsyncMutex} (hs : CarefulRuns s) (h : Step false s s') (hcareful : Careful s s') :
      CarefulRuns s'

section Steps

variable {s s' : AsyncMutex}

theorem Careful.one {c : Nat} {k : Call} (hcalls : s'.calls = Function.update s.calls c k)
    (h : k.queued ≤ (s.calls c).queued ∨ (s.calls c).pc = .suspended) : Careful s s' := by
  intro d hqueued
  rw [hcalls] at hqueued
  by_cases hd : d = c
  · subst hd
    rw [Function.update_self] at hqueued
    exact h.resolve_left (by omega)
  · rw [Function.update_of_ne hd] at hqueued
    exact absurd hqueued (Nat.lt_irrefl _)

theorem Step.forget (h : Step false s s')
    (hparked : ∀ c, 0 < (s.calls c).queued → (s.calls c).pc = .suspended) : Step true s s' := by
  cases h with
  | request c => exact .request c
  | callLock c h => exact .callLock c h
  | callTryLock c h => exact .callTryLock c h
  | tryLock c h => exact .tryLock c h
  | awaitReady c h => exact .awaitReady c h
  | checkCancel c h => exact .checkCancel c h
  | lockSection c h => exact .lockSection c h
  | armCancel c h => exact .armCancel c h
  | removeSelf c h => exact .removeSelf c h
  | proceed c h => exact .proceed c h
  | resume c h _ => exact .resume c h fun _ => hparked c h
  | onCancel c h => exact .onCancel c h
  | storeOwn c h => exact .storeOwn c h
  | enqueueSelf c h => exact .enqueueSelf c h
  | unlock c h => exact .unlock c h
  | unlockSection c h => exact .unlockSection c h
  | resumeOn w h => exact .resumeOn w h

theorem parked_step (h : Step true s s') (hcareful : Careful s s')
    (hs : ∀ c, 0 < (s.calls c).queued → (s.calls c).pc = .suspended) (c : Nat)
    (hpos : 0 < (s'.calls c).queued) : (s'.calls c).pc = .suspended := by
  cases h.move c with
  | stays hqueued _ hpc =>
    have hpark := hs c (hqueued ▸ hpos)
    obtain hpc | ⟨hne, -⟩ := hpc
    · exact hpc.trans hpark
    · exact absurd hpark hne
  | enqueues hqueued _ hpc => exact hpc.trans (hcareful c (by omega))
  | resumes _ _ _ hpc => exact hpc
  | proceeds hqueued hproceed _ =>
    have hpark := hs c (hqueued ▸ hpos)
    rw [hproceed] at hpark
    cases hpark

theorem CarefulRuns.spec (h : CarefulRuns s) : Runs true s ∧
    (∀ c, 0 < (s.calls c).queued → (s.calls c).pc = .suspended) ∧
    ∀ c, 0 < (s.calls c).resumed → (s.calls c).pc = .suspended ∨ (s.calls c).pc = .ended := by
  induction h with
  | start => exact ⟨.start, nofun, nofun⟩
  | step _ h hcareful ih =>
    obtain ⟨hruns, hparked, hresumed⟩ := ih
    have hstep := h.forget hparked
    exact ⟨hruns.step hstep, parked_step hstep hcareful hparked,
      fun c => ((hstep.move c).enqueued (hresumed c)).2⟩

theorem CarefulRuns.untouched (h : CarefulRuns s) : Untouched s := by
  intro c hpos
  obtain hpc | hpc := h.spec.2.2 c hpos <;> rw [hpc] <;> exact ⟨nofun, nofun⟩

theorem Fits.queued {w a b : Bool} {n : Nat} {k : Call} (h : Fits w a b n k) (hpos : 0 < k.queued) :
    k.pc.late = true := by
  cases h with
  | woken _ _ hpc | kicked _ _ hpc => exact hpc
  | _ => cases hpos

theorem touched_of_careless (h : CarefulRuns s) (hstep : Step false s s')
    (hcareless : ¬ Careful s s') : ∃ s'', Step false s' s'' ∧ ¬ Untouched s'' := by
  obtain ⟨hruns, hparked, -⟩ := h.spec
  have hstep' := hstep.forget hparked
  obtain ⟨c, hqueued, hnot⟩ : ∃ c, (s.calls c).queued < (s'.calls c).queued ∧
      (s.calls c).pc ≠ .suspended := by
    unfold Careful at hcareless
    push Not at hcareless
    exact hcareless
  have hpc : (s'.calls c).pc = (s.calls c).pc := by
    cases hstep'.move c with
    | enqueues _ _ hpc => exact hpc
    | stays hsame | resumes hsame | proceeds hsame => omega
  have hlate := Fits.queued ((Inv.of_runs (hruns.step hstep')).fit c) (by omega)
  refine ⟨_, .resume c (by omega) nofun, fun huntouched => ?_⟩
  have hne := huntouched c (by simp [Call.goOn])
  simp only [AsyncMutex.set_calls_self, Call.goOn, hpc] at hne hlate
  generalize (s.calls c).pc = pc at hne hlate hnot
  cases pc <;> simp_all [LockPc.late]

end Steps

end Mutex

/-! ### All of them -/

section Result

variable {Λ : Type} [DecidableEq Λ]

/-- In the runs in which a handle gets into a run queue only behind its `await_suspend`,
no coroutine is resumed while its `await_suspend` still accesses it; and the first step
that puts one there earlier lets the next step do that. -/
theorem untouched_of_carefulRuns {s : Suspension.State Λ} {m : Mutex.AsyncMutex} {z : Sleep.State}
    (hs : Suspension.CarefulRuns s) (hm : Mutex.CarefulRuns m) (hz : Sleep.CarefulRuns z) :
    (Suspension.Untouched s ∧ Mutex.Untouched m ∧ Sleep.Untouched z) ∧
      (∀ s', Suspension.Step false s s' → ¬ Suspension.Careful s s' →
        ∃ s'', Suspension.Step false s' s'' ∧ ¬ Suspension.Untouched s'') ∧
      (∀ m', Mutex.Step false m m' → ¬ Mutex.Careful m m' →
        ∃ m'', Mutex.Step false m' m'' ∧ ¬ Mutex.Untouched m'') ∧
      ∀ z', Sleep.Step z z' → ¬ Sleep.Careful z z' →
        ∃ z'', Sleep.Step z' z'' ∧ ¬ Sleep.Untouched z'' :=
  ⟨⟨hs.spec.2.2, hm.untouched, Sleep.untouched_of_careful hz⟩,
    fun _ h hcareless => Suspension.touched_of_careless hs h hcareless,
    fun _ h hcareless => Mutex.touched_of_careless hm h hcareless,
    fun _ h hcareless => Sleep.touched_of_careless hz.runs h hcareless⟩

end Result

/-- A waiter, a call of `lock` and a sleep, suspended and then woken. -/
theorem parked_untouched : ∃ (s : Suspension.State Unit) (m : Mutex.AsyncMutex) (z : Sleep.State),
    Suspension.CarefulRuns s ∧ Mutex.CarefulRuns m ∧ Sleep.CarefulRuns z ∧
      (Suspension.Untouched s ∧ Mutex.Untouched m ∧ Sleep.Untouched z) ∧
      (s.coros 0).queued = 1 ∧ (m.calls 1).queued = 1 ∧ (z 0).queued = 1 := by
  have hs₀ : Suspension.CarefulRuns (.new : Suspension.State Unit) := .start
  have hs₁ := hs₀.step (.start 0 (.op ()) rfl) (.one (by rfl) (.inl (by decide)))
  have hs₂ := hs₁.step (.check 0 (.op ()) rfl) (.one (by rfl) (.inl (by decide)))
  have hs₃ := hs₂.step (.attach 0 (.op ()) 0 rfl) (.one (by rfl) (.inl (by decide)))
  have hs₄ := hs₃.step (.look 0 (.op ()) 0 true rfl nofun) (.one (by rfl) (.inl (by decide)))
  have hs₅ := hs₄.step (.arm 0 (.op ()) rfl) (.one (by rfl) (.inl (by decide)))
  have hs₆ := hs₅.step (.wake () 1) (.one (by rfl) (.inr ⟨_, rfl⟩))
  have hm₀ : Mutex.CarefulRuns .new := .start
  have hm₁ := hm₀.step (.callLock 0 rfl) (.one (by rfl) (.inl (by decide)))
  have hm₂ := hm₁.step (.awaitReady 0 rfl) (.one (by rfl) (.inl (by decide)))
  have hm₃ := hm₂.step (.proceed 0 rfl) (.one (by rfl) (.inl (by decide)))
  have hm₄ := hm₃.step (.callLock 1 rfl) (.one (by rfl) (.inl (by decide)))
  have hm₅ := hm₄.step (.awaitReady 1 rfl) (.one (by rfl) (.inl (by decide)))
  have hm₆ := hm₅.step (.checkCancel 1 rfl) (.one (by rfl) (.inl (by decide)))
  have hm₇ := hm₆.step (.lockSection 1 rfl) (.one (by rfl) (.inl (by decide)))
  have hm₈ := hm₇.step (.armCancel 1 rfl) (.one (by rfl) (.inl (by decide)))
  have hm₉ := hm₈.step (.unlock 0 rfl) (.one (by rfl) (.inl (by decide)))
  have hm₁₀ := hm₉.step (.unlockSection 0 rfl) (.one (by rfl) (.inl (by decide)))
  have hm₁₁ := hm₁₀.step (.resumeOn 1 (.head _)) (.one (by rfl) (.inr rfl))
  have hz₀ : Sleep.CarefulRuns .new := .start
  have hz₁ := hz₀.step (.call 0 rfl) (.one (.inl (by decide)))
  have hz₂ := hz₁.step (.check 0 rfl) (.one (.inl (by decide)))
  have hz₃ := hz₂.step (.addTimer 0 rfl) (.one (.inl (by decide)))
  have hz₄ := hz₃.step (.storeId 0 rfl) (.one (.inl (by decide)))
  have hz₅ := hz₄.step (.armCancel 0 rfl) (.one (.inl (by decide)))
  have hz₆ := hz₅.step (.drain 0) (.one (.inl (by decide)))
  have hz₇ := hz₆.step (.fire 0 rfl) (.one (.inr rfl))
  obtain ⟨huntouched, -⟩ := untouched_of_carefulRuns hs₆ hm₁₁ hz₇
  exact ⟨_, _, _, hs₆, hm₁₁, hz₇, huntouched, rfl, rfl, rfl⟩

/-- Another worker resumes the coroutine of an `OpWait`, of a `lock` and of a sleep before
the cancel hook is armed. -/
theorem touched : (∃ s : Suspension.State Unit, Suspension.Runs false s ∧
      (s.coros 0).phase = .arm (.op ()) ∧ ¬ Suspension.Untouched s) ∧
    (∃ m : Mutex.AsyncMutex, Mutex.Runs false m ∧ (m.calls 1).pc = .arm ∧ ¬ Mutex.Untouched m) ∧
    ∃ z : Sleep.State, Sleep.Runs z ∧ (z 0).pc = .store ∧ ¬ Sleep.Untouched z := by
  refine ⟨?_, ?_, ?_⟩
  · have h₀ : Suspension.Runs false (.new : Suspension.State Unit) := .start
    have h₁ := h₀.step (.start 0 (.op ()) rfl)
    have h₂ := h₁.step (.check 0 (.op ()) rfl)
    have h₃ := h₂.step (.attach 0 (.op ()) 0 rfl)
    have h₄ := h₃.step (.look 0 (.op ()) 0 true rfl nofun)
    have h₅ := h₄.step (.wake () 1)
    have h₆ := h₅.step (.resumeEarly 0 rfl rfl Nat.one_pos)
    exact ⟨_, h₆, rfl, fun h => absurd (h 0) nofun⟩
  · have h₀ : Mutex.Runs false .new := .start
    have h₁ := h₀.step (.callLock 0 rfl)
    have h₂ := h₁.step (.awaitReady 0 rfl)
    have h₃ := h₂.step (.proceed 0 rfl)
    have h₄ := h₃.step (.callLock 1 rfl)
    have h₅ := h₄.step (.awaitReady 1 rfl)
    have h₆ := h₅.step (.checkCancel 1 rfl)
    have h₇ := h₆.step (.lockSection 1 rfl)
    have h₈ := h₇.step (.unlock 0 rfl)
    have h₉ := h₈.step (.unlockSection 0 rfl)
    have h₁₀ := h₉.step (.resumeOn 1 (.head _))
    have h₁₁ := h₁₀.step (.resume 1 Nat.one_pos nofun)
    exact ⟨_, h₁₁, rfl, fun h => (h 1 Nat.one_pos).1 rfl⟩
  · have h₀ : Sleep.Runs .new := .start
    have h₁ := h₀.step (.call 0 rfl)
    have h₂ := h₁.step (.check 0 rfl)
    have h₃ := h₂.step (.addTimer 0 rfl)
    have h₄ := h₃.step (.drain 0)
    have h₅ := h₄.step (.fire 0 rfl)
    have h₆ := h₅.step (.resume 0 Nat.one_pos)
    exact ⟨_, h₆, rfl, fun h => absurd (h 0 Nat.one_pos) nofun⟩

end Uvent.Sync
