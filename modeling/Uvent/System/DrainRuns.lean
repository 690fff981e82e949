import Uvent.System.Drain

/-!
# Runs of the drain

What a sweep has seen and does not keep is done, so a flag that is up stands for tasks that
are done.  Worker 0 stops the workers by flags of which each stands for all tasks of its
worker, or by a deadline that was stored.
-/

namespace Uvent.System.Drain

variable {threads timeout : Nat} {s s' : State} {e : Event} {done done' : Nat → Bool}
  {x : Worker} {pc : Pc} {w k : Nat}

def Pc.sweeps : Pc → Bool
  | .sweep .. | .setIdle _ => true
  | _ => false

structure Tracked (done : Nat → Bool) (x : Worker) : Prop where
  known : ∀ task ∈ x.registered, done task = true ∨ task ∈ x.tasks ∨ task ∈ x.extTasks
  taken : x.taken ≤ x.registered.length
  flagged : x.flagged ≤ x.registered.length
  relied : x.relied ≤ x.registered.length
  idle : x.drainIdle = true → ∀ task ∈ x.registered.take x.flagged, done task = true
  seen : x.pc.sweeps = true → ∀ task ∈ x.registered.take x.taken, done task = true ∨ task ∈ x.tasks
  left : ∀ drain kept rest, x.pc = .sweep drain kept rest →
    ∀ task ∈ x.tasks, done task = true ∨ task ∈ kept ∨ task ∈ rest
  live : ∀ n, x.pc = .setIdle n → x.tasks.length = n

theorem tracked_new (done : Nat → Bool) : Tracked done .new where
  known _ := nofun
  taken := Nat.le_refl 0
  flagged := Nat.le_refl 0
  relied := Nat.le_refl 0
  idle := nofun
  seen := nofun
  left := nofun
  live := nofun

theorem Tracked.complete (h : Tracked done x) (hdone : ∀ task, done task = true → done' task = true) :
    Tracked done' x where
  known task htask := (h.known task htask).imp_left (hdone task)
  taken := h.taken
  flagged := h.flagged
  relied := h.relied
  idle hidle task htask := hdone task (h.idle hidle task htask)
  seen hpc task htask := (h.seen hpc task htask).imp_left (hdone task)
  left drain kept rest hpc task htask := (h.left drain kept rest hpc task htask).imp_left (hdone task)
  live := h.live

theorem Tracked.goto (h : Tracked done x) (hpc : pc.sweeps = false) :
    Tracked done { x with pc := pc } where
  known := h.known
  taken := h.taken
  flagged := h.flagged
  relied := h.relied
  idle := h.idle
  seen hsweeps := by
    rw [hpc] at hsweeps
    cases hsweeps
  left drain kept rest heq := by
    cases heq
    cases hpc
  live n heq := by
    cases heq
    cases hpc

theorem Tracked.begin (h : Tracked done x) : Tracked done { x with started := true } :=
  ⟨h.known, h.taken, h.flagged, h.relied, h.idle, h.seen, h.left, h.live⟩

theorem Tracked.rely (h : Tracked done x) : Tracked done { x with relied := x.flagged } :=
  ⟨h.known, h.taken, h.flagged, h.flagged, h.idle, h.seen, h.left, h.live⟩

/-- What comes before the end of a list is not moved by a task that is put there. -/
theorem take_registered {l : List Nat} (hk : k ≤ l.length) (task : Nat) :
    (l ++ [task]).take k = l.take k := List.take_append_of_le_length hk

theorem le_registered {l : List Nat} (hk : k ≤ l.length) (task : Nat) : k ≤ (l ++ [task]).length := by
  rw [List.length_append]
  exact Nat.le_add_right_of_le hk

theorem Tracked.register (h : Tracked done x) (task : Nat) : Tracked done (x.register task) := by
  have hpc : (x.register task).pc.sweeps = false := by
    unfold Worker.register
    dsimp only
    split <;> rfl
  refine ⟨fun y hy => ?_, le_registered h.taken task, le_registered h.flagged task,
    le_registered h.relied task, fun hidle => ?_, fun hsweeps => ?_, fun drain kept rest heq => ?_,
    fun n heq => ?_⟩
  · rcases List.mem_append.mp hy with hy | hy
    · exact (h.known y hy).imp_right (Or.imp_left (List.mem_append_left _))
    · exact .inr (.inl (List.mem_append_right _ hy))
  · show ∀ y ∈ (x.registered ++ [task]).take x.flagged, done y = true
    rw [take_registered h.flagged]
    exact h.idle hidle
  · rw [hpc] at hsweeps
    cases hsweeps
  · rw [heq] at hpc
    cases hpc
  · rw [heq] at hpc
    cases hpc

theorem Tracked.registerExternal (h : Tracked done x) (task : Nat) :
    Tracked done (x.registerExternal task) := by
  refine ⟨fun y hy => ?_, le_registered h.taken task, le_registered h.flagged task,
    le_registered h.relied task, fun hidle => ?_, fun hsweeps => ?_, h.left, h.live⟩
  · rcases List.mem_append.mp hy with hy | hy
    · exact (h.known y hy).imp_right (Or.imp_right (List.mem_append_left _))
    · exact .inr (.inr (List.mem_append_right _ hy))
  · show ∀ y ∈ (x.registered ++ [task]).take x.flagged, done y = true
    rw [take_registered h.flagged]
    exact h.idle hidle
  · show ∀ y ∈ (x.registered ++ [task]).take x.taken, done y = true ∨ y ∈ x.tasks
    rw [take_registered h.taken]
    exact h.seen hsweeps

/-- The tasks of other threads are taken over, outside a sweep. -/
theorem Tracked.takeExternal (h : Tracked done x) (hpc : x.pc.sweeps = false) :
    Tracked done x.takeExternal := by
  refine ⟨fun y hy => ?_, h.taken, h.flagged, h.relied, h.idle, fun hsweeps => ?_,
    fun drain kept rest heq => ?_, fun n heq => ?_⟩
  · rcases h.known y hy with hdone | hin | hext
    · exact .inl hdone
    · exact .inr (.inl (List.mem_append_left _ hin))
    · exact .inr (.inl (List.mem_append_right _ hext))
  · have hsweeps' : x.pc.sweeps = true := hsweeps
    rw [hpc] at hsweeps'
    cases hsweeps'
  · have heq' : x.pc = .sweep drain kept rest := heq
    rw [heq'] at hpc
    cases hpc
  · have heq' : x.pc = .setIdle n := heq
    rw [heq'] at hpc
    cases hpc

theorem Tracked.sweepTake (h : Tracked done x) (drain : Bool) :
    Tracked done
      { x.takeExternal with
        taken := x.registered.length, pc := .sweep drain [] x.takeExternal.tasks } := by
  have hknown : ∀ y ∈ x.registered, done y = true ∨ y ∈ x.tasks ++ x.extTasks := fun y hy =>
    (h.known y hy).imp_right fun hin => List.mem_append.mpr hin
  refine ⟨fun y hy => ?_, Nat.le_refl _, h.flagged, h.relied, h.idle, fun _ y hy => ?_, ?_, nofun⟩
  · exact (hknown y hy).imp_right .inl
  · exact hknown y (List.mem_of_mem_take hy)
  · intro d kept rest heq y hy
    cases heq
    exact .inr (.inr hy)

theorem Tracked.sweep (h : Tracked done x) {drain : Bool} {task : Nat} {kept rest : List Nat}
    (hpc : x.pc = .sweep drain kept (task :: rest)) :
    Tracked done
      { x with pc := .sweep drain (if done task then kept else kept ++ [task]) rest } := by
  refine ⟨h.known, h.taken, h.flagged, h.relied, h.idle, fun _ => h.seen (by rw [hpc]; rfl), ?_, nofun⟩
  intro d kept' rest' heq y hy
  cases heq
  rcases h.left drain kept (task :: rest) hpc y hy with hdone | hkept | hrest
  · exact .inl hdone
  · right
    left
    split
    · exact hkept
    · exact List.mem_append_left _ hkept
  · rcases List.mem_cons.mp hrest with rfl | hrest
    · cases hdone : done y with
      | true => exact .inl rfl
      | false => exact .inr (.inl (List.mem_append_right _ List.mem_cons_self))
    · exact .inr (.inr hrest)

theorem Tracked.swept (h : Tracked done x) {drain : Bool} {kept : List Nat}
    (hpc : x.pc = .sweep drain kept []) : Tracked done (x.swept drain kept) := by
  have hkept : ∀ y ∈ x.tasks, done y = true ∨ y ∈ kept := fun y hy =>
    (h.left drain kept [] hpc y hy).imp_right fun hin => hin.resolve_right List.not_mem_nil
  refine ⟨fun y hy => ?_, h.taken, h.flagged, h.relied, h.idle, fun _ y hy => ?_, ?_, ?_⟩
  · rcases h.known y hy with hdone | hin | hext
    · exact .inl hdone
    · exact (hkept y hin).imp_right .inl
    · exact .inr (.inr hext)
  · exact (h.seen (by rw [hpc]; rfl) y hy).elim .inl (hkept y)
  · intro d kept' rest heq
    cases drain <;> cases heq
  · intro n heq
    cases drain with
    | true =>
        cases heq
        rfl
    | false => cases heq

/-- A sweep that left nothing puts the flag up. -/
theorem Tracked.setIdle (h : Tracked done x) {live : Nat} (hpc : x.pc = .setIdle live)
    (index : Nat) : Tracked done (x.setIdle index live) := by
  have hpc' : (x.setIdle index live).pc.sweeps = false := by
    unfold Worker.setIdle
    dsimp only
    split <;> rfl
  refine ⟨h.known, h.taken, h.taken, h.relied, fun hidle y hy => ?_, fun hsweeps => ?_,
    fun drain kept rest heq => ?_, fun n heq => ?_⟩
  · have hempty : x.tasks = [] := by
      apply List.eq_nil_of_length_eq_zero
      rw [h.live live hpc]
      exact of_decide_eq_true hidle
    have hseen := h.seen (by rw [hpc]; rfl) y hy
    rw [hempty] at hseen
    exact hseen.resolve_right List.not_mem_nil
  · rw [hpc'] at hsweeps
    cases hsweeps
  · rw [heq] at hpc'
    cases hpc'
  · rw [heq] at hpc'
    cases hpc'

/-! ### Every worker -/

theorem goto_worker (s : State) (w : Nat) (pc : Pc) (w' : Nat) :
    (s.goto w pc).worker w' =
      { s.worker w' with pc := if w' = w then pc else (s.worker w').pc } := by
  by_cases hw : w' = w
  · subst hw
    rw [if_pos rfl]
    exact Function.update_self ..
  · rw [if_neg hw]
    exact Function.update_of_ne hw ..

theorem tracked_setWorker (h : ∀ w, Tracked s.done (s.worker w)) (hx : Tracked s.done x) (w' : Nat) :
    Tracked (s.setWorker w x).done ((s.setWorker w x).worker w') := by
  show Tracked s.done (Function.update s.worker w x w')
  by_cases hw : w' = w
  · rw [hw, Function.update_self]
    exact hx
  · rw [Function.update_of_ne hw]
    exact h w'

theorem step_tracked (h : ∀ w, Tracked s.done (s.worker w)) (hstep : Step threads timeout s e s') :
    ∀ w, Tracked s'.done (s'.worker w) := by
  cases hstep with
  | tick clock later => exact h
  | complete task =>
      refine fun w => (h w).complete fun y hy => ?_
      by_cases hy' : y = task
      · rw [hy']
        exact Function.update_self ..
      · show Function.update s.done task true y = true
        rwa [Function.update_of_ne hy']
  | call | exchange | now | storeDeadline => exact h
  | register w task worker pc fresh => exact tracked_setWorker h ((h w).register task)
  | registerExternal task running fresh => exact tracked_setWorker h ((h 0).registerExternal task)
  | drainStart w worker pc draining first => exact tracked_setWorker h ((h w).begin.goto rfl)
  | cancelTake w pc =>
      exact tracked_setWorker h (((h w).takeExternal (by rw [pc]; rfl)).goto rfl)
  | sweepTake w drain pc => exact tracked_setWorker h ((h w).sweepTake drain)
  | sweep w task drain kept rest pc => exact tracked_setWorker h ((h w).sweep pc)
  | swept w drain kept pc => exact tracked_setWorker h ((h w).swept pc)
  | setIdle w live pc => exact tracked_setWorker h ((h w).setIdle pc w)
  | drainAgain w worker pc draining started => exact tracked_setWorker h ((h w).goto rfl)
  | cancel w task rest pc | cancelled w pc => exact tracked_setWorker h ((h w).goto rfl)
  | readIdle i pc more =>
      have hrelied := tracked_setWorker (w := i) h (h i).rely
      exact tracked_setWorker hrelied ((hrelied 0).goto rfl)
  | readIdleEnd | readClock | compareIdle | compareLate | compareEarly | requestStopAll =>
      exact tracked_setWorker h ((h 0).goto rfl)

theorem tracked_of_runs {ok : State → Event → Prop} (h : Runs threads timeout ok s) :
    ∀ w, Tracked s.done (s.worker w) :=
  h.holds (fun ⟨_, hs⟩ => hs ▸ fun _ => tracked_new _) fun _ ih hstep _ => step_tracked ih hstep

/-! ### What worker 0 relies on -/

def Pc.found (threads : Nat) : Pc → Nat
  | .readIdle i true => i
  | .readClock true | .compare true _ | .request true => threads
  | _ => 0

structure Relied (threads : Nat) (s : State) : Prop where
  found : ∀ w, w < (s.worker 0).pc.found threads →
    ∀ task ∈ (s.worker w).registered.take (s.worker w).relied, s.done task = true
  others : ∀ w, threads ≤ w → (s.worker w).registered = []

theorem relied_new (clock : Nat) : Relied threads (.new clock) where
  found _ h := absurd h (Nat.not_lt_zero _)
  others _ _ := rfl

theorem Relied.setWorker (h : Relied threads s) (hregistered : x.registered = (s.worker w).registered)
    (hrelied : x.relied = (s.worker w).relied)
    (hpc : w = 0 → x.pc.found threads ≤ (s.worker 0).pc.found threads) :
    Relied threads (s.setWorker w x) := by
  have hsame : ∀ w', ((s.setWorker w x).worker w').registered = (s.worker w').registered ∧
      ((s.setWorker w x).worker w').relied = (s.worker w').relied := by
    intro w'
    show (Function.update s.worker w x w').registered = _ ∧
      (Function.update s.worker w x w').relied = _
    by_cases hw : w' = w
    · rw [hw, Function.update_self]
      exact ⟨hregistered, hrelied⟩
    · rw [Function.update_of_ne hw]
      exact ⟨rfl, rfl⟩
  refine ⟨fun w' hw' => ?_, fun w' hw' => ?_⟩
  · rw [(hsame w').1, (hsame w').2]
    refine h.found w' (Nat.lt_of_lt_of_le hw' ?_)
    show (Function.update s.worker w x 0).pc.found threads ≤ _
    by_cases hw : w = 0
    · subst hw
      rw [Function.update_self]
      exact hpc rfl
    · have hother : Function.update s.worker w x 0 = s.worker 0 :=
        Function.update_of_ne (Ne.symm hw) ..
      exact Nat.le_of_eq (by rw [hother])
  · rw [(hsame w').1]
    exact h.others w' hw'

theorem Relied.goto (h : Relied threads s) (hpc : w = 0 → pc.found threads ≤
    (s.worker 0).pc.found threads) : Relied threads (s.goto w pc) :=
  h.setWorker rfl rfl hpc

theorem Relied.register (h : Relied threads s) (htracked : Tracked s.done (s.worker w))
    (hw : w < threads) {task : Nat} (hregistered : x.registered = (s.worker w).registered ++ [task])
    (hrelied : x.relied = (s.worker w).relied)
    (hpc : w = 0 → x.pc.found threads ≤ (s.worker 0).pc.found threads) :
    Relied threads (s.setWorker w x) := by
  refine ⟨fun w' hw' => ?_, fun w' hw' => ?_⟩
  · have hfound : w' < (s.worker 0).pc.found threads := by
      refine Nat.lt_of_lt_of_le hw' ?_
      show (Function.update s.worker w x 0).pc.found threads ≤ _
      by_cases hzero : w = 0
      · subst hzero
        rw [Function.update_self]
        exact hpc rfl
      · have hother : Function.update s.worker w x 0 = s.worker 0 :=
          Function.update_of_ne (Ne.symm hzero) ..
        exact Nat.le_of_eq (by rw [hother])
    show ∀ y ∈ (Function.update s.worker w x w').registered.take
      (Function.update s.worker w x w').relied, s.done y = true
    by_cases heq : w' = w
    · subst heq
      rw [Function.update_self, hregistered, hrelied, take_registered htracked.relied]
      exact h.found w' hfound
    · rw [Function.update_of_ne heq]
      exact h.found w' hfound
  · show (Function.update s.worker w x w').registered = []
    rw [Function.update_of_ne (Nat.ne_of_gt (Nat.lt_of_lt_of_le hw hw'))]
    exact h.others w' hw'

/-- Worker 0 finds the flag of worker `i` up, or it is through with the flags. -/
theorem Relied.readIdle (h : Relied threads s) {i : Nat} (htracked : Tracked s.done (s.worker i))
    (pc : (s.worker 0).pc = .readIdle i true) :
    Relied threads ((s.relyOn i).goto 0 (.readIdle (i + 1) (s.worker i).drainIdle)) := by
  have hworker : ∀ w, (s.relyOn i).worker w =
      Function.update s.worker i { s.worker i with relied := (s.worker i).flagged } w := fun _ => rfl
  refine ⟨fun w hw => ?_, fun w hw => ?_⟩
  · rw [goto_worker] at hw ⊢
    dsimp only at hw ⊢
    rw [if_pos rfl] at hw
    cases hidle : (s.worker i).drainIdle with
    | false =>
        rw [hidle] at hw
        exact absurd hw (Nat.not_lt_zero _)
    | true =>
        rw [hidle] at hw
        have hle : w ≤ i := Nat.le_of_lt_succ hw
        rw [hworker]
        by_cases hwi : w = i
        · subst hwi
          rw [Function.update_self]
          exact htracked.idle hidle
        · rw [Function.update_of_ne hwi]
          refine h.found w ?_
          rw [pc]
          exact Nat.lt_of_le_of_ne hle hwi
  · rw [goto_worker]
    dsimp only
    rw [hworker]
    by_cases hwi : w = i
    · subst hwi
      rw [Function.update_self]
      exact h.others w hw
    · rw [Function.update_of_ne hwi]
      exact h.others w hw

theorem step_relied (h : Relied threads s) (htracked : ∀ w, Tracked s.done (s.worker w))
    (hstep : Step threads timeout s e s') : Relied threads s' := by
  cases hstep with
  | tick clock later => exact ⟨h.found, h.others⟩
  | complete task =>
      refine ⟨fun w hw y hy => ?_, h.others⟩
      show Function.update s.done task true y = true
      by_cases hy' : y = task
      · rw [hy', Function.update_self]
      · rw [Function.update_of_ne hy']
        exact h.found w hw y hy
  | call | exchange | now | storeDeadline => exact ⟨h.found, h.others⟩
  | register w task worker pc fresh =>
      refine h.register (htracked w) worker rfl rfl fun _ => ?_
      unfold Worker.register
      dsimp only
      split <;> exact Nat.zero_le _
  | registerExternal task running fresh =>
      exact h.register (htracked 0) running rfl rfl fun _ => Nat.le_refl _
  | drainStart w worker pc draining first => exact h.setWorker rfl rfl fun _ => Nat.zero_le _
  | cancelTake w pc => exact h.setWorker rfl rfl fun _ => Nat.zero_le _
  | sweepTake w drain pc => exact h.setWorker rfl rfl fun _ => Nat.zero_le _
  | swept w drain kept pc =>
      refine h.setWorker rfl rfl fun _ => ?_
      cases drain <;> exact Nat.zero_le _
  | setIdle w live pc =>
      refine h.setWorker rfl rfl fun hw => ?_
      unfold Worker.setIdle
      dsimp only
      rw [if_pos hw]
      exact Nat.zero_le _
  | drainAgain | sweep | cancel | cancelled => exact h.goto fun _ => Nat.zero_le _
  | readIdle i pc more => exact h.readIdle (htracked i) pc
  | readIdleEnd i idle pc finished =>
      refine h.goto fun _ => ?_
      rw [pc]
      cases idle with
      | true => exact finished rfl
      | false => exact Nat.zero_le _
  | readClock idle pc =>
      refine h.goto fun _ => ?_
      rw [pc]
      cases idle <;> exact Nat.le_refl _
  | compareIdle now pc =>
      refine h.goto fun _ => ?_
      rw [pc]
      exact Nat.le_refl _
  | compareLate | compareEarly | requestStopAll => exact h.goto fun _ => Nat.zero_le _

theorem relied_of_runs {ok : State → Event → Prop} (h : Runs threads timeout ok s) :
    Relied threads s :=
  h.holds (fun ⟨clock, hs⟩ => hs ▸ relied_new clock) fun hs ih hstep _ =>
    step_relied ih (tracked_of_runs hs) hstep

/-! ### The deadline -/

/-- What is known of the time at which `stop` was called. -/
def Stop.Dated (timeout : Nat) (calledAt : Option Nat) (clock deadline : Nat) : Stop → Prop
  | .ready => calledAt = none
  | .called | .flagged => ∃ called, calledAt = some called ∧ called ≤ clock
  | .timed now => ∃ called, calledAt = some called ∧ called ≤ now
  | .returned => ∃ called, calledAt = some called ∧ called + timeoutNs timeout ≤ deadline

/-- The timeout has passed since `stop` was called. -/
def Expired (timeout : Nat) (s : State) : Prop :=
  ∃ called, s.calledAt = some called ∧ called + timeoutNs timeout ≤ s.clock

structure Timed (timeout : Nat) (s : State) : Prop where
  stop : s.stop.Dated timeout s.calledAt s.clock s.drainDeadlineNs
  now : ∀ idle now, (s.worker 0).pc = .compare idle now → now ≤ s.clock
  late : (s.worker 0).pc = .request false → Expired timeout s

theorem timed_new (clock : Nat) : Timed timeout (.new clock) := ⟨rfl, nofun, nofun⟩

theorem le_deadline {called now wait : Nat} (hle : called ≤ now) (hlt : now + wait < 2 ^ 64) :
    called + wait ≤ (now + wait) % 2 ^ 64 := by
  rw [Nat.mod_eq_of_lt hlt]
  exact Nat.add_le_add_right hle wait

theorem Timed.setWorker (h : Timed timeout s) (hnow : w = 0 → ∀ idle now, x.pc ≠ .compare idle now)
    (hlate : w = 0 → x.pc ≠ .request false) : Timed timeout (s.setWorker w x) := by
  have hworker : (s.setWorker w x).worker 0 = if w = 0 then x else s.worker 0 := by
    show Function.update s.worker w x 0 = _
    by_cases hw : w = 0
    · subst hw
      rw [Function.update_self, if_pos rfl]
    · rw [Function.update_of_ne (Ne.symm hw), if_neg hw]
  refine ⟨h.stop, fun idle now hpc => ?_, fun hpc => ?_⟩
  · rw [hworker] at hpc
    split at hpc
    · exact absurd hpc (hnow ‹w = 0› idle now)
    · exact h.now idle now hpc
  · rw [hworker] at hpc
    split at hpc
    · exact absurd hpc (hlate ‹w = 0›)
    · exact h.late hpc

theorem step_timed (h : Timed timeout s) (hok : Settled timeout s e)
    (hstep : Step threads timeout s e s') : Timed timeout s' := by
  have hstop := h.stop
  cases hstep with
  | tick clock later =>
      have hlater : ∀ called, called ≤ s.clock → called ≤ clock := fun _ hle =>
        Nat.le_trans hle later
      refine ⟨?_, fun idle now hpc => hlater now (h.now idle now hpc), fun hpc => ?_⟩
      · cases hs : s.stop with
        | called | flagged =>
            rw [hs] at hstop
            obtain ⟨called, hcalled, hle⟩ := hstop
            exact ⟨called, hcalled, hlater called hle⟩
        | ready | timed | returned =>
            rw [hs] at hstop
            exact hstop
      · obtain ⟨called, hcalled, hle⟩ := h.late hpc
        exact ⟨called, hcalled, hlater _ hle⟩
  | complete task => exact ⟨h.stop, h.now, h.late⟩
  | call ready =>
      refine ⟨⟨s.clock, rfl, Nat.le_refl _⟩, h.now, fun hpc => ?_⟩
      obtain ⟨called, hcalled, -⟩ := h.late hpc
      rw [ready] at hstop
      rw [show s.calledAt = none from hstop] at hcalled
      cases hcalled
  | exchange called timed first =>
      rw [called] at hstop
      exact ⟨hstop, h.now, h.late⟩
  | now flagged =>
      rw [flagged] at hstop
      exact ⟨hstop, h.now, h.late⟩
  | storeDeadline now timed =>
      rw [timed] at hstop
      obtain ⟨called, hcalled, hle⟩ := hstop
      refine ⟨⟨called, hcalled, le_deadline hle (hok now timed)⟩, h.now, fun hpc => ?_⟩
      obtain ⟨called', hcalled', hle'⟩ := h.late hpc
      exact ⟨called', hcalled', hle'⟩
  | register w task worker pc fresh =>
      refine h.setWorker (fun _ _ _ heq => ?_) fun _ heq => ?_
      all_goals
        unfold Worker.register at heq
        dsimp only at heq
        split at heq <;> cases heq
  | registerExternal task running fresh => exact ⟨h.stop, h.now, h.late⟩
  | drainStart | cancelTake | sweepTake | drainAgain | sweep | cancel | cancelled =>
      exact h.setWorker (fun _ => nofun) fun _ => nofun
  | swept w drain kept pc =>
      refine h.setWorker (fun _ _ _ heq => ?_) fun _ heq => ?_
      all_goals cases drain <;> cases heq
  | setIdle w live pc =>
      refine h.setWorker (fun _ _ _ heq => ?_) fun _ heq => ?_
      all_goals
        unfold Worker.setIdle at heq
        dsimp only at heq
        split at heq <;> cases heq
  | readIdle i pc more =>
      exact ⟨h.stop, nofun, nofun⟩
  | readIdleEnd | compareIdle | compareEarly | requestStopAll =>
      exact h.setWorker (fun _ => nofun) fun _ => nofun
  | readClock idle pc =>
      refine ⟨h.stop, fun idle' now hpc => ?_, nofun⟩
      rw [goto_worker] at hpc
      cases hpc
      exact Nat.le_refl _
  | compareLate now pc late =>
      refine ⟨h.stop, nofun, fun _ => ?_⟩
      have hreturned : s.stop = .returned := hok
      rw [hreturned] at hstop
      obtain ⟨called, hcalled, hle⟩ := hstop
      exact ⟨called, hcalled, Nat.le_trans hle (Nat.le_trans late (h.now false now pc))⟩

theorem timed_of_runs (h : Runs threads timeout (Settled timeout) s) : Timed timeout s :=
  h.holds (fun ⟨clock, hs⟩ => hs ▸ timed_new clock) fun _ ih hstep meets => step_timed ih meets hstep

/-! ### The stop of the workers -/

/-- In a run in which the deadline is read behind its store and does not wrap around, and no
task is registered behind a sweep that worker 0 relies on when it stops the workers, worker 0
stops them when every task is done or the timeout has passed. -/
theorem drained_of_settledRuns (threads timeout : Nat) (s s' : State)
    (hruns : Runs threads timeout (Settled timeout) s) (hok : Settled timeout s .requestStopAll)
    (hstep : Step threads timeout s .requestStopAll s') : Drained timeout s := by
  cases hstep with
  | requestStopAll idle pc =>
      cases idle with
      | false => exact .inr ((timed_of_runs hruns).late pc)
      | true =>
          left
          intro w task htask
          have hrelied := relied_of_runs hruns
          have hlt : w < threads := by
            by_contra hcontra
            rw [hrelied.others w (Nat.le_of_not_lt hcontra)] at htask
            cases htask
          refine hrelied.found w (by rw [pc]; exact hlt) task ?_
          rwa [List.take_of_length_le (hok pc w)]

/-- The only worker stops itself when its task is done. -/
theorem finished_drained : ∃ s, (s.worker 0).registered = [7] ∧ s.clock < s.drainDeadlineNs ∧
    Drained 5000 s := by
  have h₁ : Runs 1 5000 (Settled 5000) (.new 10) := .start ⟨10, rfl⟩
  have h₂ := ((h₁.step (.register 0 7 (by decide) rfl ⟨rfl, fun _ => nofun⟩)).step
    (.complete 7)).step (.call rfl)
  have hstore : ∀ now, Stop.timed 10 = .timed now → now + timeoutNs 5000 < 2 ^ 64 := by
    rintro now ⟨⟩
    decide
  have h₃ := ((h₂.step (.exchange rfl (by decide) rfl)).step (.now rfl)).step
    (.storeDeadline 10 rfl) hstore
  have h₄ := (((h₃.step (.drainStart 0 (by decide) rfl rfl rfl)).step (.cancelTake 0 rfl)).step
    (.cancel 0 7 [] rfl)).step (.cancelled 0 rfl)
  have h₅ := (((h₄.step (.sweepTake 0 true rfl)).step (.sweep 0 7 true [] [] rfl)).step
    (.swept 0 true [] rfl)).step (.setIdle 0 0 rfl)
  have h₆ := (((h₅.step (.readIdle 0 rfl (by decide))).step
    (.readIdleEnd 1 true rfl (by decide))).step (.readClock true rfl)).step (.compareIdle 10 rfl)
  refine ⟨_, rfl, ?_, drained_of_settledRuns 1 5000 _ _ h₆ (fun _ w => ?_)
    (.requestStopAll true rfl)⟩
  · show 10 < (10 + timeoutNs 5000) % 2 ^ 64
    decide
  · cases w with
    | zero => exact Nat.le_refl 1
    | succ w => exact Nat.le_refl 0

/-- Worker 0 stops the workers at once when it reads the deadline before `stop` has stored it.
It also stops them when a task was registered on a worker whose flag was up, with the deadline
in place. -/
theorem live_not_drained :
    (∃ s s', Runs 1 5000 (fun _ _ => True) s ∧ Step 1 5000 s .requestStopAll s' ∧
      s.stop = .flagged ∧ ¬ Drained 5000 s) ∧
    ∃ s s', Runs 2 5000 (fun _ _ => True) s ∧ Step 2 5000 s .requestStopAll s' ∧
      s.stop = .returned ∧ ¬ Drained 5000 s := by
  constructor
  · have h₁ : Runs 1 5000 (fun _ _ => True) (.new 10) := .start ⟨10, rfl⟩
    have h₂ := ((h₁.step (.register 0 7 (by decide) rfl ⟨rfl, fun _ => nofun⟩)).step
      (.call rfl)).step (.exchange rfl (by decide) rfl)
    have h₃ := (((h₂.step (.drainStart 0 (by decide) rfl rfl rfl)).step (.cancelTake 0 rfl)).step
      (.cancel 0 7 [] rfl)).step (.cancelled 0 rfl)
    have h₄ := (((h₃.step (.sweepTake 0 true rfl)).step (.sweep 0 7 true [] [] rfl)).step
      (.swept 0 true [7] rfl)).step (.setIdle 0 1 rfl)
    have h₅ := ((h₄.step (.readIdle 0 rfl (by decide))).step (.readIdleEnd 1 false rfl nofun)).step
      (.readClock false rfl)
    have h₆ := h₅.step (.compareLate 10 rfl (by decide))
    refine ⟨_, _, h₆, .requestStopAll false rfl, rfl, fun hdrained => ?_⟩
    rcases hdrained with hdone | ⟨called, hcalled, hle⟩
    · exact Bool.noConfusion (hdone 0 7 (List.mem_singleton_self 7))
    · cases hcalled
      exact absurd hle (by decide)
  · have h₁ : Runs 2 5000 (fun _ _ => True) (.new 10) := .start ⟨10, rfl⟩
    have h₂ := (((h₁.step (.call rfl)).step (.exchange rfl (by decide) rfl)).step (.now rfl)).step
      (.storeDeadline 10 rfl)
    -- worker 1 finds nothing to drain, and then spawns a task
    have h₃ := (((h₂.step (.drainStart 1 (by decide) rfl rfl rfl)).step (.cancelTake 1 rfl)).step
      (.cancelled 1 rfl)).step (.sweepTake 1 true rfl)
    have h₄ := (h₃.step (.swept 1 true [] rfl)).step (.setIdle 1 0 rfl)
    have h₅ := (((h₄.step (.register 1 7 (by decide) rfl ⟨rfl, fun
      | 0 | 1 | _ + 2 => nofun⟩)).step
      (.drainStart 0 (by decide) rfl rfl rfl)).step (.cancelTake 0 rfl)).step (.cancelled 0 rfl)
    have h₆ := (((h₅.step (.sweepTake 0 true rfl)).step (.swept 0 true [] rfl)).step
      (.setIdle 0 0 rfl)).step (.readIdle 0 rfl (by decide))
    have h₇ := (((h₆.step (.readIdle 1 rfl (by decide))).step
      (.readIdleEnd 2 true rfl (by decide))).step (.readClock true rfl)).step (.compareIdle 10 rfl)
    refine ⟨_, _, h₇, .requestStopAll true rfl, rfl, fun hdrained => ?_⟩
    rcases hdrained with hdone | ⟨called, hcalled, hle⟩
    · exact Bool.noConfusion (hdone 1 7 (List.mem_singleton_self 7))
    · cases hcalled
      exact absurd hle (by decide)

end Uvent.System.Drain
