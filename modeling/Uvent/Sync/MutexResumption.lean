import Mathlib.Logic.Relation
import Uvent.Sync.AsyncMutex

/-!
# The awaits of the mutex

How often the handle of a call is put into a run queue: once for an await that suspends, and
never for one that does not.  A call that nobody has chosen is in the list and can be
cancelled.
-/

namespace Uvent.Sync.Mutex

open AsyncMutex

/-! ### How often a handle is put into a run queue -/

inductive Counted (reuseAddr : Bool) : AsyncMutex → (Nat → Nat) → Prop where
  | start : Counted reuseAddr .new fun _ => 0
  | step {s s' : AsyncMutex} {wakes : Nat → Nat} (hs : Counted reuseAddr s wakes)
      (h : Step reuseAddr s s') :
      Counted reuseAddr s' fun c => wakes c + ((s'.calls c).queued - (s.calls c).queued)

theorem Counted.runs {reuseAddr : Bool} {s : AsyncMutex} {wakes : Nat → Nat}
    (h : Counted reuseAddr s wakes) : Runs reuseAddr s := by
  induction h with
  | start => exact .start
  | step _ h ih => exact ih.step h

inductive Move (k k' : Call) : Prop where
  | stays (hqueued : k'.queued = k.queued) (hresumed : k'.resumed = k.resumed)
      (hpc : k'.pc = k.pc ∨ k.pc ≠ .suspended ∧ k.pc ≠ .ended)
  | enqueues (hqueued : k'.queued = k.queued + 1) (hresumed : k'.resumed = k.resumed)
      (hpc : k'.pc = k.pc)
  | resumes (hqueued : k.queued = k'.queued + 1) (hresumed : k'.resumed = k.resumed + 1)
      (hsuspended : k.pc = .suspended) (hpc : k'.pc = .suspended)
  | proceeds (hqueued : k'.queued = k.queued) (hproceed : k.pc = .proceed) (hpc : k'.pc = .ended)

section Moves

variable {s s' : AsyncMutex} {c : Nat} {k : Call}

theorem Move.refl : Move k k := .stays rfl rfl (.inl rfl)

theorem Move.one (hcalls : s'.calls = s.calls) (h : Move (s.calls c) k) (d : Nat) :
    Move (s.calls d) ((s'.set c k).calls d) := by
  by_cases hd : d = c
  · subst hd
    rw [AsyncMutex.set_calls_self]
    exact h
  · rw [AsyncMutex.set_calls_of_ne hd, hcalls]
    exact .refl

theorem Move.other (hcalls : s'.calls = s.calls) (hqueued : k.queued = (s.calls c).queued)
    (hresumed : k.resumed = (s.calls c).resumed) (hpc : k.pc = (s.calls c).pc) (d : Nat) :
    Move (s.calls d) ((s'.set c k).calls d) := .one hcalls (.stays hqueued hresumed (.inl hpc)) d

theorem Move.early (hpc : (s.calls c).pc ≠ .suspended ∧ (s.calls c).pc ≠ .ended)
    (hcalls : s'.calls = s.calls) (hqueued : k.queued = (s.calls c).queued)
    (hresumed : k.resumed = (s.calls c).resumed) (d : Nat) :
    Move (s.calls d) ((s'.set c k).calls d) := .one hcalls (.stays hqueued hresumed (.inr hpc)) d

theorem withdraw_calls : (s.withdraw c).2.calls = s.calls := by
  unfold AsyncMutex.withdraw
  split <;> rfl

theorem Step.move (h : Step true s s') (d : Nat) : Move (s.calls d) (s'.calls d) := by
  cases h with
  | request c => exact Move.other (by rfl) (by rfl) (by rfl) (by rfl) d
  | callLock c h | callTryLock c h =>
    have hpc : (s.calls c).pc ≠ .suspended ∧ (s.calls c).pc ≠ .ended := by simp [h]
    exact Move.early hpc (by rfl) (by rfl) (by rfl) d
  | tryLock c h =>
    have hpc : (s.calls c).pc ≠ .suspended ∧ (s.calls c).pc ≠ .ended := by simp [h]
    unfold AsyncMutex.tryLock AsyncMutex.tryLockRaw
    split <;> rename_i heq <;> split at heq <;> cases heq
    · exact Move.early hpc (by rfl) (by rfl) (by rfl) d
    · exact Move.early hpc (by rfl) (by rfl) (by rfl) d
  | awaitReady c h =>
    have hpc : (s.calls c).pc ≠ .suspended ∧ (s.calls c).pc ≠ .ended := by simp [h]
    unfold AsyncMutex.awaitReady AsyncMutex.tryLockRaw
    split <;> rename_i heq <;> split at heq <;> cases heq
    · exact Move.early hpc (by rfl) (by rfl) (by rfl) d
    · exact Move.early hpc (by rfl) (by rfl) (by rfl) d
  | checkCancel c h =>
    have hpc : (s.calls c).pc ≠ .suspended ∧ (s.calls c).pc ≠ .ended := by simp [h]
    unfold AsyncMutex.checkCancel
    split <;> exact Move.early hpc (by rfl) (by rfl) (by rfl) d
  | lockSection c h =>
    have hpc : (s.calls c).pc ≠ .suspended ∧ (s.calls c).pc ≠ .ended := by simp [h]
    unfold AsyncMutex.lockSection AsyncMutex.tryLockRaw
    split <;> rename_i heq <;> split at heq <;> cases heq
    · exact Move.early hpc (by rfl) (by rfl) (by rfl) d
    · exact Move.early hpc (by rfl) (by rfl) (by rfl) d
  | armCancel c h =>
    have hpc : (s.calls c).pc ≠ .suspended ∧ (s.calls c).pc ≠ .ended := by simp [h]
    exact Move.early hpc (by rfl) (by rfl) (by rfl) d
  | removeSelf c h =>
    have hpc : (s.calls c).pc ≠ .suspended ∧ (s.calls c).pc ≠ .ended := by simp [h]
    have hcalls := withdraw_calls (s := s) (c := c)
    unfold AsyncMutex.removeSelf
    match hw : s.withdraw c with
    | (true, s₁) | (false, s₁) =>
      rw [hw] at hcalls
      exact Move.early hpc hcalls (by rfl) (by rfl) d
  | proceed c h => exact Move.one (by rfl) (.proceeds (by rfl) h (by rfl)) d
  | resume c h hbuild =>
    have hsuspended := hbuild rfl
    refine Move.one (by rfl) (.resumes ?_ ?_ hsuspended ?_) d
    · show (s.calls c).queued = (s.calls c).queued - 1 + 1
      omega
    · rfl
    · exact hsuspended
  | onCancel c h =>
    have hcalls := withdraw_calls (s := s) (c := c)
    unfold AsyncMutex.onCancel
    match hw : s.withdraw c with
    | (true, s₁) | (false, s₁) =>
      rw [hw] at hcalls
      exact Move.other hcalls (by rfl) (by rfl) (by rfl) d
  | storeOwn c h => exact Move.other (by rfl) (by rfl) (by rfl) (by rfl) d
  | enqueueSelf c h => exact Move.one (by rfl) (.enqueues (by rfl) (by rfl) (by rfl)) d
  | unlock c h => exact Move.other (by rfl) (by rfl) (by rfl) (by rfl) d
  | unlockSection c h =>
    unfold AsyncMutex.unlockSection
    split <;> exact Move.other (by rfl) (by rfl) (by rfl) (by rfl) d
  | resumeOn w h => exact Move.one (by rfl) (.enqueues (by rfl) (by rfl) (by rfl)) d

end Moves

def Call.enqueued (k : Call) : Nat := k.queued + if k.pc = .suspended then k.resumed else 0

theorem Move.enqueued {k k' : Call} (h : Move k k')
    (hk : 0 < k.resumed → k.pc = .suspended ∨ k.pc = .ended) :
    k'.enqueued = k.enqueued + (k'.queued - k.queued) ∧
      (0 < k'.resumed → k'.pc = .suspended ∨ k'.pc = .ended) := by
  cases h with
  | stays hqueued hresumed hpc =>
    obtain hpc | ⟨hne, hover⟩ := hpc
    · simp only [Call.enqueued, hqueued, hresumed, hpc]
      exact ⟨by omega, hk⟩
    · have hzero : k.resumed = 0 := by
        by_contra hpos
        exact (hk (by omega)).elim hne hover
      simp [Call.enqueued, hqueued, hresumed, hzero]
  | enqueues hqueued hresumed hpc =>
    simp only [Call.enqueued, hqueued, hresumed, hpc]
    exact ⟨by omega, hk⟩
  | resumes hqueued hresumed hsuspended hpc =>
    simp only [Call.enqueued, hresumed, hsuspended, hpc, if_true]
    exact ⟨by omega, fun _ => .inl trivial⟩
  | proceeds hqueued hproceed hpc => simp [Call.enqueued, hqueued, hproceed, hpc]

theorem Counted.enqueued {s : AsyncMutex} {wakes : Nat → Nat} (h : Counted true s wakes) (c : Nat) :
    wakes c = (s.calls c).enqueued ∧
      (0 < (s.calls c).resumed → (s.calls c).pc = .suspended ∨ (s.calls c).pc = .ended) := by
  induction h with
  | start => exact ⟨rfl, nofun⟩
  | step _ h ih =>
    obtain ⟨hwakes, hpc⟩ := (h.move c).enqueued ih.2
    exact ⟨by simp only [hwakes, ih.1], hpc⟩

/-! ### The hooks -/

section Hooks

variable {s s' : AsyncMutex} {c : Nat} {k : Call}

/-- Behind `arm_cancel` the hook of a waiter is in place. -/
def AsyncMutex.Hooked (s : AsyncMutex) : Prop :=
  ∀ c, c ∈ s.waiters → (s.calls c).pc = .remove ∨ (s.calls c).pc = .suspended →
    (s.calls c).hook = true

/-- A step changes one call, and pushes no other one. -/
theorem AsyncMutex.Hooked.one (h : s.Hooked) (hcalls : s'.calls = Function.update s.calls c k)
    (hwaiters : ∀ d, d ≠ c → d ∈ s'.waiters → d ∈ s.waiters)
    (hc : c ∈ s'.waiters → k.pc = .remove ∨ k.pc = .suspended → k.hook = true) : s'.Hooked := by
  intro d hd hpc
  rw [hcalls] at hpc ⊢
  by_cases hdc : d = c
  · subst hdc
    rw [Function.update_self] at hpc ⊢
    exact hc hd hpc
  · rw [Function.update_of_ne hdc] at hpc ⊢
    exact h d (hwaiters d hdc hd) hpc

theorem AsyncMutex.Hooked.away (h : s.Hooked) (hwaiters : s'.waiters = s.waiters)
    (hcalls : s'.calls = s.calls) (hpc : ¬ (k.pc = .remove ∨ k.pc = .suspended)) :
    (s'.set c k).Hooked := by
  refine h.one (c := c) (k := k) ?_ (fun d _ hd => hwaiters ▸ hd) fun _ hk => absurd hk hpc
  rw [AsyncMutex.set, hcalls]

theorem AsyncMutex.Hooked.same (h : s.Hooked) (hwaiters : ∀ d, d ∈ s'.waiters → d ∈ s.waiters)
    (hcalls : s'.calls = s.calls) (hpc : k.pc = (s.calls c).pc)
    (hhook : k.hook = (s.calls c).hook) : (s'.set c k).Hooked := by
  refine h.one (c := c) (k := k) ?_ (fun d _ hd => hwaiters d hd) fun hc hk => ?_
  · rw [AsyncMutex.set, hcalls]
  · rw [hhook]
    rw [hpc] at hk
    exact h c (hwaiters c hc) hk

theorem AsyncMutex.Hooked.withdraw (h : s.Hooked) (hinv : Inv s) (k k' : Call) :
    AsyncMutex.Hooked (match s.withdraw c with
      | (true, s') => s'.set c k
      | (false, s') => s'.set c k') := by
  have hgone : c ∉ s.waiters.erase c := hinv.nodup.not_mem_erase
  by_cases hmem : c ∈ s.waiters
  · simp only [AsyncMutex.withdraw, WaitList.removeLocked, hmem, decide_true]
    exact h.one rfl (fun d _ hd => List.mem_of_mem_erase hd) fun hc => absurd hc hgone
  · simp only [AsyncMutex.withdraw, WaitList.removeLocked, hmem, decide_false]
    exact h.one rfl (fun d _ hd => List.mem_of_mem_erase hd) fun hc => absurd hc hgone

theorem hooked_step (hinv : Inv s) (h : s.Hooked) (hstep : Step true s s') : s'.Hooked := by
  cases hstep with
  | request c => exact h.same (fun _ => id) rfl rfl rfl
  | callLock c _ | callTryLock c _ => exact h.away rfl rfl (by simp)
  | tryLock c _ =>
    unfold AsyncMutex.tryLock AsyncMutex.tryLockRaw
    split <;> rename_i heq <;> split at heq <;> cases heq <;> exact h.away rfl rfl (by simp)
  | awaitReady c _ =>
    unfold AsyncMutex.awaitReady AsyncMutex.tryLockRaw
    split <;> rename_i heq <;> split at heq <;> cases heq <;> exact h.away rfl rfl (by simp)
  | checkCancel c _ =>
    unfold AsyncMutex.checkCancel
    split <;> exact h.away rfl rfl (by simp)
  | lockSection c _ =>
    unfold AsyncMutex.lockSection AsyncMutex.tryLockRaw
    split <;> rename_i heq <;> split at heq <;> cases heq
    · exact h.away rfl rfl (by simp)
    · refine h.one rfl (fun d hd hmem => ?_) (fun _ hk => by simp at hk)
      simpa [WaitList.pushLocked, hd] using hmem
  | armCancel c _ => exact h.one rfl (fun _ _ => id) fun _ _ => rfl
  | removeSelf c _ => exact h.withdraw hinv _ _
  | proceed c _ => exact h.away rfl rfl (by simp)
  | resume c hqueued _ =>
    refine h.one rfl (fun _ _ => id) fun hc => ?_
    obtain ⟨-, -, -, pc, r, h, -, hcall⟩ := (hinv.fit c).of_mem hc
    rw [hcall] at hqueued
    cases hqueued
  | onCancel c _ => exact h.withdraw hinv _ _
  | storeOwn c _ | enqueueSelf c _ | unlock c _ => exact h.same (fun _ => id) rfl rfl rfl
  | unlockSection c _ =>
    unfold AsyncMutex.unlockSection
    cases hlist : s.waiters with
    | nil => exact h.same (fun d hd => by cases hd) rfl rfl rfl
    | cons w l =>
      exact h.same (fun d hd => by rw [hlist]; exact List.mem_cons_of_mem w hd) rfl rfl rfl
  | resumeOn w _ => exact h.same (fun _ => id) rfl rfl rfl

theorem hooked_of_runs (h : Runs true s) : s.Hooked := by
  induction h with
  | start => exact fun c hc => by cases hc
  | step hs hstep ih => exact hooked_step (Inv.of_runs hs) ih hstep

end Hooks

/-- Nobody has chosen the call or removed it, and `unlock` and cancellation can. -/
structure AsyncMutex.Awaits (s : AsyncMutex) (wakes : Nat → Nat) (c : Nat) : Prop where
  wakes : wakes c = 0
  fresh : (s.calls c).queued = 0 ∧ (s.calls c).resumed = 0
  listed : c ∈ s.waiters
  hook : (s.calls c).hook = true

structure ResumedOnce (s : AsyncMutex) (wakes : Nat → Nat) : Prop where
  /-- `await_suspend` has returned false, or was not called. -/
  refused : ∀ c, (s.calls c).pc = .proceed ∨ (s.calls c).pc = .ended → wakes c = 0
  once : ∀ c, wakes c ≤ 1 ∧ (s.calls c).resumed ≤ 1
  continued : ∀ c, (s.calls c).pc = .suspended → 0 < (s.calls c).resumed → wakes c = 1
  waiting : ∀ c, (s.calls c).pc = .suspended → wakes c = 0 → c ∉ s.handed → c ∉ s.withdrawn →
    s.Awaits wakes c
  /-- An `unlock` chooses the first waiter. -/
  unlocks : ∀ c w l, (s.calls c).guard = .unlocking → s.waiters = w :: l →
    wakes w = 0 ∧ (s.unlockSection c).waiters = l ∧ w ∈ (s.unlockSection c).waking ∧
      (s.unlockSection c).handed = s.handed ++ [w]
  kicks : ∀ c, c ∈ s.waiters → ((s.onCancel c).calls c).hookPc = .store ∧
    c ∈ (s.onCancel c).withdrawn
  /-- Chosen by an `unlock` or removed by `on_cancel`, which puts it into a run queue. -/
  owed : ∀ c, c ∈ s.handed ∨ c ∈ s.withdrawn → (s.calls c).pc = .suspended →
    ∃ s' wakes', Relation.ReflTransGen (Step true) s s' ∧ Counted true s' wakes' ∧
      (s'.calls c).pc = .suspended ∧ wakes' c = 1
  /-- It has done so. -/
  woken : ∀ c, c ∈ s.handed ∨ c ∈ s.withdrawn → (s.calls c).pc = .suspended → c ∉ s.waking →
    (s.calls c).hookPc = .idle → wakes c = 1
  unlinked : ∀ c, 0 < (s.calls c).resumed → c ∉ s.waiters

section Counting

variable {w a b : Bool} {n : Nat} {k : Call}

theorem Fits.resumed (h : Fits w a b n k) (hk : 0 < k.resumed → k.pc = .suspended ∨ k.pc = .ended) :
    (k.pc = .proceed ∨ k.pc = .ended → k.enqueued = 0) ∧ k.enqueued ≤ 1 ∧ k.resumed ≤ 1 ∧
      (k.pc = .suspended → 0 < k.resumed → k.enqueued = 1) ∧
      (a = true ∨ b = true → k.pc = .suspended → n = 0 → k.hookPc = .idle → k.enqueued = 1) ∧
      (0 < k.resumed → w = false) := by
  cases h with
  | @calling pc r hpc => cases pc <;> simp_all [Call.enqueued, LockPc.early]
  | @waiting pc r h hpc | @chosen pc r h hpc | @woken pc r h hpc | @removed pc r h hpc
  | @claimed pc r h hpc | @kicked pc r h hpc =>
    cases pc <;> simp_all [Call.enqueued, LockPc.late]
  | acquired | refused => simp [Call.enqueued]
  | tried => simp [Call.enqueued]
  | @holding pc g r h b a hpc hg =>
    obtain rfl | rfl := hk Nat.one_pos <;> simp [Call.enqueued]
  | @empty pc r h b a d hpc =>
    obtain rfl | rfl := hk Nat.one_pos <;> simp [Call.enqueued]

/-- A suspended call that was neither chosen nor removed nor woken. -/
theorem Fits.waits (h : Fits w false false n k) (hpc : k.pc = .suspended) (hzero : k.enqueued = 0) :
    w = true ∧ k.queued = 0 ∧ k.resumed = 0 := by
  generalize ha : false = a at h
  generalize hb : false = b at h
  cases h with
  | calling r hearly =>
    obtain rfl : _ = LockPc.suspended := hpc
    cases hearly
  | waiting => exact ⟨rfl, rfl, rfl⟩
  | acquired | refused | tried => cases hpc
  | holding | empty =>
    obtain rfl : _ = LockPc.suspended := hpc
    simp [Call.enqueued] at hzero

/-- A suspended call that was chosen or removed has been woken, or somebody is about to do
it. -/
theorem Fits.owes (h : Fits w a b n k) (hab : a = true ∨ b = true) (hpc : k.pc = .suspended) :
    k.enqueued = 1 ∨ k.queued = 0 ∧ k.resumed = 0 ∧
      (0 < n ∨ k.hookPc = .store ∨ k.hookPc = .enqueue) := by
  cases h with
  | calling | waiting | acquired | tried => exact absurd hab (by simp)
  | refused => cases hpc
  | chosen => exact .inr ⟨rfl, rfl, .inl Nat.one_pos⟩
  | removed => exact .inr ⟨rfl, rfl, .inr (.inl rfl)⟩
  | claimed => exact .inr ⟨rfl, rfl, .inr (.inr rfl)⟩
  | woken | kicked => exact .inl (by simp [Call.enqueued])
  | holding | empty =>
    obtain rfl : _ = LockPc.suspended := hpc
    exact .inl (by simp [Call.enqueued])

end Counting

section Waking

variable {s : AsyncMutex} {wakes : Nat → Nat} {c : Nat}

theorem Counted.awaits (h : Counted true s wakes) (hpc : (s.calls c).pc = .suspended)
    (hzero : wakes c = 0) (hhanded : c ∉ s.handed) (hwithdrawn : c ∉ s.withdrawn) :
    s.Awaits wakes c := by
  have hfit := (Inv.of_runs h.runs).fit c
  rw [AsyncMutex.Fit, decide_eq_false hhanded, decide_eq_false hwithdrawn] at hfit
  obtain ⟨hlisted, hqueued, hresumed⟩ := hfit.waits hpc ((h.enqueued c).1.symm.trans hzero)
  have hmem := of_decide_eq_true hlisted
  exact ⟨hzero, ⟨hqueued, hresumed⟩, hmem, hooked_of_runs h.runs c hmem (.inr hpc)⟩

theorem Counted.wakes_of_mem (h : Counted true s wakes) (hmem : c ∈ s.waiters) : wakes c = 0 := by
  obtain ⟨-, -, -, pc, r, hook, -, hcall⟩ := ((Inv.of_runs h.runs).fit c).of_mem hmem
  rw [(h.enqueued c).1, hcall]
  simp [Call.enqueued]

theorem Counted.unlocks (h : Counted true s wakes) {w : Nat} {l : List Nat} (c : Nat)
    (hlist : s.waiters = w :: l) :
    wakes w = 0 ∧ (s.unlockSection c).waiters = l ∧ w ∈ (s.unlockSection c).waking ∧
      (s.unlockSection c).handed = s.handed ++ [w] := by
  refine ⟨h.wakes_of_mem (by simp [hlist]), ?_⟩
  simp [AsyncMutex.unlockSection, WaitList.popFrontLocked, hlist]

theorem onCancel_of_mem (hmem : c ∈ s.waiters) :
    ((s.onCancel c).calls c).hookPc = .store ∧ c ∈ (s.onCancel c).withdrawn := by
  simp [AsyncMutex.onCancel, AsyncMutex.withdraw, WaitList.removeLocked, hmem]

/-- A step that puts the handle of a call into a run queue for the first time. -/
theorem Counted.wake (h : Counted true s wakes) {s' : AsyncMutex} (hstep : Step true s s')
    (hpc : (s'.calls c).pc = .suspended) (hqueued : (s'.calls c).queued = 1)
    (hresumed : (s'.calls c).resumed = 0) :
    ∃ s' wakes', Relation.ReflTransGen (Step true) s s' ∧ Counted true s' wakes' ∧
      (s'.calls c).pc = .suspended ∧ wakes' c = 1 := by
  have hnext := h.step hstep
  refine ⟨s', _, .single hstep, hnext, hpc, (hnext.enqueued c).1.trans ?_⟩
  simp [Call.enqueued, hqueued, hresumed]

theorem Counted.owed (h : Counted true s wakes) (hab : c ∈ s.handed ∨ c ∈ s.withdrawn)
    (hpc : (s.calls c).pc = .suspended) :
    ∃ s' wakes', Relation.ReflTransGen (Step true) s s' ∧ Counted true s' wakes' ∧
      (s'.calls c).pc = .suspended ∧ wakes' c = 1 := by
  have hfit := (Inv.of_runs h.runs).fit c
  obtain hone | ⟨hqueued, hresumed, hwaking | hhook | hhook⟩ :=
    hfit.owes (hab.imp decide_eq_true decide_eq_true) hpc
  · exact ⟨s, wakes, .refl, h, hpc, (h.enqueued c).1.trans hone⟩
  · refine h.wake (.resumeOn c (List.count_pos_iff.mp hwaking)) ?_ ?_ ?_
    · simpa [AsyncMutex.resumeOn] using hpc
    · simpa [AsyncMutex.resumeOn] using hqueued
    · simpa [AsyncMutex.resumeOn] using hresumed
  · have hstored := h.step (.storeOwn c hhook)
    obtain ⟨s', wakes', hsteps, hafter⟩ := hstored.wake (c := c) (.enqueueSelf c (by simp))
      (by simpa using hpc) (by simpa using hqueued) (by simpa using hresumed)
    exact ⟨s', wakes', .head (.storeOwn c hhook) hsteps, hafter⟩
  · refine h.wake (.enqueueSelf c hhook) ?_ ?_ ?_
    · simpa using hpc
    · simpa using hqueued
    · simpa using hresumed

end Waking

theorem resumedOnce_of_counted {s : AsyncMutex} {wakes : Nat → Nat} (h : Counted true s wakes) :
    ResumedOnce s wakes := by
  have hcall : ∀ c, _ := fun c => Fits.resumed ((Inv.of_runs h.runs).fit c) (h.enqueued c).2
  constructor
  case refused => exact fun c hpc => (h.enqueued c).1.trans ((hcall c).1 hpc)
  case once => exact fun c => ⟨(h.enqueued c).1 ▸ (hcall c).2.1, (hcall c).2.2.1⟩
  case continued =>
    exact fun c hpc hpos => (h.enqueued c).1.trans ((hcall c).2.2.2.1 hpc hpos)
  case waiting => exact fun c hpc hzero hh hw => h.awaits hpc hzero hh hw
  case unlocks => exact fun c w l _ hlist => h.unlocks c hlist
  case kicks => exact fun c hmem => onCancel_of_mem hmem
  case owed => exact fun c hc hpc => h.owed hc hpc
  case woken =>
    intro c hc hpc hwaking hhook
    exact (h.enqueued c).1.trans ((hcall c).2.2.2.2.1 (hc.imp decide_eq_true decide_eq_true) hpc
      (List.count_eq_zero.mpr hwaking) hhook)
  case unlinked => exact fun c hpos => of_decide_eq_false ((hcall c).2.2.2.2.2 hpos)

end Uvent.Sync.Mutex
