import Uvent.Net.HappyOutcomes

/-!
# Who resumes the parent

A race once decided stays decided.  While the parent is parked either nothing has decided the
race, or exactly one coroutine has its handle in `to_wake`.
-/

namespace Uvent.Net.HappyEyeballs

variable {Addr : Type} {resolved delayed : Bool} {s s' : State Addr} {i : Nat} {v6 : Bool}

/-! ### When the race is decided -/

theorem decided_iff : s.decided = true ↔ s.done = true ∨
    (s.resolvesPending = 0 ∧ s.nextIdx = s.addrs.length ∧ s.finished = s.addrs.length) := by
  unfold State.decided
  rw [Bool.or_eq_true, Bool.and_eq_true, Bool.and_eq_true, beq_iff_eq, beq_iff_eq, beq_iff_eq,
    and_assoc]

theorem decided_launchNext (h : Counts s) : s.launchNext.decided = s.decided := by
  rcases launchNext_cases s with heq | ⟨hracing, hlt, heq⟩
  · rw [heq]
  · have hle := h.finished_le
    have hold : ¬ s.decided = true := by
      rw [decided_iff, hracing]
      rintro (hdone | ⟨-, hnext, -⟩)
      · cases hdone
      · exact absurd hnext (Nat.ne_of_lt hlt)
    have hnew : ¬ s.launchNext.decided = true := by
      rw [decided_iff, heq]
      rintro (hdone | ⟨-, -, hfinished⟩)
      · exact absurd (hracing.symm.trans hdone) Bool.false_ne_true
      · exact absurd hfinished (Nat.ne_of_lt (hle.trans_lt hlt))
    rw [Bool.not_eq_true] at hold hnew
    rw [hold, hnew]

theorem Counts.still (h : Counts s) (hdecided : s.decided = true) (hracing : s.done = false) :
    (∀ i, s.attempt i ≠ .absent → (s.attempt i).settled = true) ∧
      ∀ v6, (s.resolver v6).pending = false := by
  obtain ⟨hpending, hnext, hfinished⟩ := (decided_iff.mp hdecided).resolve_left
    (by rw [hracing]; exact Bool.false_ne_true)
  refine ⟨fun i hi => ?_, fun v6 => ?_⟩
  · refine h.all_settled (hfinished.trans hnext.symm) ?_
    exact Nat.lt_of_not_le fun hle => hi ((h.absent i).mpr hle)
  · have hsum := h.pending
    rw [hpending] at hsum
    cases v6 with
    | true =>
        rw [← Bool.toNat_eq_zero]
        omega
    | false =>
        rw [← Bool.toNat_eq_zero]
        omega

theorem Counts.done_of_connecting (h : Counts s) (hdecided : s.decided = true)
    (pc : s.attempt i = .connecting) : s.done = true := by
  by_contra hracing
  rw [Bool.not_eq_true] at hracing
  have hsettled := (h.still hdecided hracing).1 i (by rw [pc]; nofun)
  rw [pc] at hsettled
  cases hsettled

/-- Once decided, always decided, and a race decided without a winner stays so. -/
theorem Counts.decided_step (h : Counts s) (hstep : Step resolved delayed s s')
    (hdecided : s.decided = true) : s'.decided = true ∧ (s.done = false → s'.done = false) := by
  have hlaunch : s.launchNext.decided = true ∧ (s.done = false → s.launchNext.done = false) := by
    refine ⟨(decided_launchNext h).trans hdecided, fun hracing => ?_⟩
    rw [launchNext_done, hracing]
  cases hstep with
  | attemptSkip i pc done => exact ⟨decided_iff.mpr (.inl done), id⟩
  | attemptOk i pc =>
      have hdone := h.done_of_connecting hdecided pc
      rcases connected_cases { s with finished := s.finished + 1 } i with ⟨-, heq⟩ | ⟨hracing, -⟩
      · rw [heq]
        exact ⟨decided_iff.mpr (.inl hdone), id⟩
      · exact absurd (hracing.symm.trans hdone) Bool.false_ne_true
  | attemptFail i error pc => exact ⟨decided_iff.mpr (.inl (h.done_of_connecting hdecided pc)), id⟩
  | attemptLaunch i wake pc => exact hlaunch
  | pacerLaunch pc => exact hlaunch
  | kickLaunch v6 wake pc => exact hlaunch
  | answerApply v6 found pc =>
      obtain ⟨addrs, heq, -⟩ := applyAnswer_cases h.listed v6 found
      rw [heq]
      refine ⟨decided_iff.mpr (.inl ?_), id⟩
      by_contra hracing
      rw [Bool.not_eq_true] at hracing
      have hpending := (h.still hdecided hracing).2 v6
      rw [pc] at hpending
      cases hpending
  | _ => exact ⟨hdecided, id⟩

/-! ### Who resumes the parent -/

inductive Coro where
  | attempt (i : Nat)
  | resolver (v6 : Bool)
  deriving DecidableEq

def Attempt.wakes : Attempt → Bool
  | .finishing _ _ wake => wake
  | _ => false

def Resolver.wakes : Resolver Addr → Bool
  | .kicking wake | .launching wake | .waking wake => wake
  | _ => false

def State.wakes (s : State Addr) : Coro → Bool
  | .attempt i => (s.attempt i).wakes
  | .resolver v6 => (s.resolver v6).wakes

inductive Phase where
  | before
  | parked
  | after

def Parent.phase : Parent → Phase
  | .ready | .suspending => .before
  | .suspended => .parked
  | .scheduled | .resumed | .returned _ => .after

inductive Waking (s : State Addr) : Prop where
  | before (pc : s.parent.phase = .before) (waiting : s.parentWaiting = false)
      (idle : ∀ c, s.wakes c = false) (resumes : s.resumes = 0)
  | parked (pc : s.parent.phase = .parked) (waiting : s.parentWaiting = true)
      (racing : s.decided = false) (idle : ∀ c, s.wakes c = false) (resumes : s.resumes = 0)
  | handed (c : Coro) (pc : s.parent.phase = .parked) (waiting : s.parentWaiting = false)
      (decided : s.decided = true) (holder : ∀ c', s.wakes c' = true ↔ c' = c)
      (resumes : s.resumes = 0)
  | after (pc : s.parent.phase = .after) (waiting : s.parentWaiting = false)
      (decided : s.decided = true) (idle : ∀ c, s.wakes c = false) (resumes : s.resumes ≤ 1)

theorem Waking.pass (h : Waking s) (hparent : s'.parent = s.parent)
    (hwaiting : s'.parentWaiting = s.parentWaiting) (hresumes : s'.resumes = s.resumes)
    (hdecided : s'.decided = s.decided) (hwakes : s'.wakes = s.wakes) : Waking s' := by
  rcases h with ⟨pc, waiting, idle, resumes⟩ | ⟨pc, waiting, racing, idle, resumes⟩ |
    ⟨c, pc, waiting, decided, holder, resumes⟩ | ⟨pc, waiting, decided, idle, resumes⟩
  · rw [← hparent] at pc
    rw [← hwaiting] at waiting
    rw [← hwakes] at idle
    rw [← hresumes] at resumes
    exact .before pc waiting idle resumes
  · rw [← hparent] at pc
    rw [← hwaiting] at waiting
    rw [← hdecided] at racing
    rw [← hwakes] at idle
    rw [← hresumes] at resumes
    exact .parked pc waiting racing idle resumes
  · rw [← hparent] at pc
    rw [← hwaiting] at waiting
    rw [← hdecided] at decided
    rw [← hwakes] at holder
    rw [← hresumes] at resumes
    exact .handed c pc waiting decided holder resumes
  · rw [← hparent] at pc
    rw [← hwaiting] at waiting
    rw [← hdecided] at decided
    rw [← hwakes] at idle
    rw [← hresumes] at resumes
    exact .after pc waiting decided idle resumes

/-- A coroutine looks for the parent after it has changed what decides the race. -/
theorem Waking.take (h : Waking s) {c : Coro} {decided : Bool} (hc : s.wakes c = false)
    (hmono : s.decided = true → decided = true) (hparent : s'.parent = s.parent)
    (hwaiting : s'.parentWaiting = (s.parentWaiting && !decided))
    (hresumes : s'.resumes = s.resumes) (hdecided : s'.decided = decided)
    (hwakes : s'.wakes = Function.update s.wakes c (decided && s.parentWaiting)) : Waking s' := by
  have hnobody : (∀ c, s.wakes c = false) → (decided && s.parentWaiting) = false →
      ∀ c, s'.wakes c = false := by
    intro idle htakes c'
    rw [hwakes, htakes]
    by_cases hcc : c' = c
    · rw [hcc, Function.update_self]
    · rw [Function.update_of_ne hcc]
      exact idle c'
  rcases h with ⟨pc, waiting, idle, resumes⟩ | ⟨pc, waiting, racing, idle, resumes⟩ |
    ⟨c₀, pc, waiting, hd, holder, resumes⟩ | ⟨pc, waiting, hd, idle, resumes⟩
  · rw [waiting] at hwaiting hnobody
    exact .before (hparent ▸ pc) hwaiting (hnobody idle (Bool.and_false _)) (hresumes ▸ resumes)
  · rw [waiting] at hwaiting hnobody hwakes
    cases decided with
    | false => exact .parked (hparent ▸ pc) hwaiting hdecided (hnobody idle rfl) (hresumes ▸ resumes)
    | true =>
        refine .handed c (hparent ▸ pc) hwaiting hdecided (fun c' => ?_) (hresumes ▸ resumes)
        rw [hwakes]
        by_cases hcc : c' = c
        · rw [hcc, Function.update_self]
          exact ⟨fun _ => rfl, fun _ => rfl⟩
        · rw [Function.update_of_ne hcc, idle c']
          exact ⟨nofun, fun hcc' => absurd hcc' hcc⟩
  · rw [waiting] at hwaiting hwakes
    refine .handed c₀ (hparent ▸ pc) hwaiting (hdecided.trans (hmono hd)) (fun c' => ?_)
      (hresumes ▸ resumes)
    rw [hwakes, Bool.and_false]
    by_cases hcc : c' = c
    · rw [hcc, Function.update_self, ← holder, hc]
    · rw [Function.update_of_ne hcc]
      exact holder c'
  · rw [waiting] at hwaiting hnobody
    exact .after (hparent ▸ pc) hwaiting (hdecided.trans (hmono hd))
      (hnobody idle (Bool.and_false _)) (hresumes ▸ resumes)

theorem Waking.resume (h : Waking s) {c : Coro} (hc : s.wakes c = true)
    (hparent : s'.parent = .scheduled) (hwaiting : s'.parentWaiting = s.parentWaiting)
    (hresumes : s'.resumes = s.resumes + 1) (hdecided : s'.decided = s.decided)
    (hwakes : s'.wakes = Function.update s.wakes c false) : Waking s' := by
  have hsome : ¬ ∀ c, s.wakes c = false := fun idle => by
    rw [idle c] at hc
    cases hc
  rcases h with ⟨-, -, idle, -⟩ | ⟨-, -, -, idle, -⟩ |
    ⟨c₀, pc, waiting, decided, holder, resumes⟩ | ⟨-, -, -, idle, -⟩
  · exact absurd idle hsome
  · exact absurd idle hsome
  · refine .after (by rw [hparent]; rfl) (hwaiting.trans waiting) (hdecided.trans decided)
      (fun c' => ?_) (by rw [hresumes, resumes])
    rw [hwakes]
    by_cases hcc : c' = c
    · rw [hcc, Function.update_self]
    · rw [Function.update_of_ne hcc, ← Bool.not_eq_true, holder, ← (holder c).mp hc]
      exact hcc
  · exact absurd idle hsome

theorem wakes_setAttempt {a : Attempt} :
    (s.setAttempt i a).wakes = Function.update s.wakes (.attempt i) a.wakes := by
  funext c
  cases c with
  | attempt j =>
      show (Function.update s.attempt i a j).wakes = _
      by_cases hji : j = i
      · rw [hji, Function.update_self, Function.update_self]
      · rw [Function.update_of_ne hji, Function.update_of_ne fun hc => hji (Coro.attempt.inj hc)]
        rfl
  | resolver v6 =>
      have hne : Coro.resolver v6 ≠ .attempt i := nofun
      rw [Function.update_of_ne hne]
      rfl

theorem wakes_setResolver {r : Resolver Addr} :
    (s.setResolver v6 r).wakes = Function.update s.wakes (.resolver v6) r.wakes := by
  funext c
  cases c with
  | attempt j =>
      have hne : Coro.attempt j ≠ .resolver v6 := nofun
      rw [Function.update_of_ne hne]
      rfl
  | resolver b =>
      show (Function.update s.resolver v6 r b).wakes = _
      by_cases hb : b = v6
      · rw [hb, Function.update_self, Function.update_self]
      · rw [Function.update_of_ne hb, Function.update_of_ne fun hc => hb (Coro.resolver.inj hc)]
        rfl

theorem wakes_launchNext (h : Counts s) : s.launchNext.wakes = s.wakes := by
  rcases launchNext_cases s with heq | ⟨-, -, heq⟩
  · rw [heq]
  · rw [heq]
    have hnone : s.attempt s.nextIdx = .absent := (h.absent _).mpr (Nat.le_refl _)
    have hwakes := wakes_setAttempt (s := s) (i := s.nextIdx) (a := .spawned)
    have hself : s.wakes (.attempt s.nextIdx) = Attempt.spawned.wakes := by
      show (s.attempt s.nextIdx).wakes = _
      rw [hnone]
      rfl
    calc _ = (s.setAttempt s.nextIdx .spawned).wakes := rfl
      _ = _ := by rw [hwakes, ← hself, Function.update_eq_self]

theorem Waking.attempt (h : Waking s) {a : Attempt} (ha : a.wakes = (s.attempt i).wakes) :
    Waking (s.setAttempt i a) := by
  refine h.pass rfl rfl rfl rfl ?_
  rw [wakes_setAttempt, ha]
  exact Function.update_eq_self (Coro.attempt i) s.wakes

theorem Waking.resolver (h : Waking s) {r : Resolver Addr}
    (hr : r.wakes = (s.resolver v6).wakes) : Waking (s.setResolver v6 r) := by
  refine h.pass rfl rfl rfl rfl ?_
  rw [wakes_setResolver, hr]
  exact Function.update_eq_self (Coro.resolver v6) s.wakes

theorem Waking.launchNext (h : Waking s) (hcounts : Counts s) : Waking s.launchNext :=
  h.pass (launchNext_parent s) (launchNext_parentWaiting s) (launchNext_resumes s)
    (decided_launchNext hcounts) (wakes_launchNext hcounts)

theorem phase_ready {p : Parent} (h : p matches .ready) : p.phase = .before := by
  cases p with
  | ready => rfl
  | _ => exact absurd h Bool.false_ne_true

theorem phase_suspending {p : Parent} (h : p matches .suspending) : p.phase = .before := by
  cases p with
  | suspending => rfl
  | _ => exact absurd h Bool.false_ne_true

theorem phase_scheduled {p : Parent} (h : p matches .scheduled) : p.phase = .after := by
  cases p with
  | scheduled => rfl
  | _ => exact absurd h Bool.false_ne_true

theorem phase_resumed {p : Parent} (h : p matches .resumed) : p.phase = .after := by
  cases p with
  | resumed => rfl
  | _ => exact absurd h Bool.false_ne_true

theorem Waking.of_before (h : Waking s) (hpc : s.parent.phase = .before) :
    s.parentWaiting = false ∧ (∀ c, s.wakes c = false) ∧ s.resumes = 0 := by
  rcases h with ⟨-, waiting, idle, resumes⟩ | ⟨pc, -⟩ | ⟨-, pc, -⟩ | ⟨pc, -⟩
  · exact ⟨waiting, idle, resumes⟩
  · rw [hpc] at pc
    cases pc
  · rw [hpc] at pc
    cases pc
  · rw [hpc] at pc
    cases pc

theorem Waking.of_after (h : Waking s) (hpc : s.parent.phase = .after) :
    s.parentWaiting = false ∧ s.decided = true ∧ (∀ c, s.wakes c = false) ∧ s.resumes ≤ 1 := by
  rcases h with ⟨pc, -⟩ | ⟨pc, -⟩ | ⟨-, pc, -⟩ | ⟨-, waiting, decided, idle, resumes⟩
  · rw [hpc] at pc
    cases pc
  · rw [hpc] at pc
    cases pc
  · rw [hpc] at pc
    cases pc
  · exact ⟨waiting, decided, idle, resumes⟩

theorem Waking.step (h : Waking s) (hcounts : Counts s) (hstep : Step resolved delayed s s') :
    Waking s' := by
  have hmono := fun hd => (hcounts.decided_step hstep hd).1
  cases hstep with
  | attemptSkip i pc done =>
      have hc : s.wakes (.attempt i) = false := congrArg Attempt.wakes pc
      exact h.take hc hmono rfl rfl rfl rfl wakes_setAttempt
  | attemptConnect i pc => exact h.attempt (by rw [pc]; rfl)
  | attemptOk i pc =>
      have hc : s.wakes (.attempt i) = false := congrArg Attempt.wakes pc
      rcases connected_cases { s with finished := s.finished + 1 } i with ⟨-, heq⟩ | ⟨-, heq⟩
      · rw [heq] at hmono ⊢
        exact h.take hc hmono rfl rfl rfl rfl wakes_setAttempt
      · rw [heq] at hmono ⊢
        exact h.take hc hmono rfl rfl rfl rfl wakes_setAttempt
  | attemptFail i error pc =>
      have hc : s.wakes (.attempt i) = false := congrArg Attempt.wakes pc
      exact h.take hc hmono rfl rfl rfl rfl wakes_setAttempt
  | attemptShutdown i early wake pc =>
      exact (h.attempt (a := .finishing false early wake) (by rw [pc]; rfl)).pass rfl rfl rfl rfl rfl
  | attemptLaunch i wake pc =>
      have hkept := launchNext_attempt hcounts (by rw [pc]; nofun)
      exact (h.launchNext hcounts).attempt (by rw [hkept, pc]; rfl)
  | attemptWake i pc =>
      have hc : s.wakes (.attempt i) = true := congrArg Attempt.wakes pc
      exact h.resume hc rfl rfl rfl rfl wakes_setAttempt
  | attemptEnd i pc => exact h.attempt (by rw [pc]; rfl)
  | pacerLaunch pc => exact (h.launchNext hcounts).pass rfl rfl rfl rfl rfl
  | answer v6 found pc =>
      have hr : (if !v6 && !found.isEmpty && delayed then Resolver.answered found
          else .applying found).wakes = (s.resolver v6).wakes := by
        rw [pc]
        split <;> rfl
      exact (h.resolver hr).pass rfl rfl rfl rfl rfl
  | answerCheck v6 found pc =>
      refine h.resolver ?_
      rw [pc]
      split <;> rfl
  | answerHeld v6 found pc => exact h.resolver (by rw [pc]; rfl)
  | answerApply v6 found pc =>
      have hc : s.wakes (.resolver v6) = false := congrArg Resolver.wakes pc
      obtain ⟨addrs, heq, -⟩ := applyAnswer_cases hcounts.listed v6 found
      rw [heq] at hmono ⊢
      exact h.take hc hmono rfl rfl rfl rfl wakes_setResolver
  | kickSkip v6 wake pc => exact h.resolver (by rw [pc]; rfl)
  | kick v6 wake pc => exact h.resolver (by rw [pc]; rfl)
  | kickLaunch v6 wake pc =>
      exact (h.launchNext hcounts).resolver (by rw [launchNext_resolver, pc]; rfl)
  | resolverWake v6 pc =>
      have hc : s.wakes (.resolver v6) = true := congrArg Resolver.wakes pc
      exact h.resume hc rfl rfl rfl rfl wakes_setResolver
  | resolverEnd v6 pc => exact h.resolver (by rw [pc]; rfl)
  | ready pc =>
      obtain ⟨waiting, idle, resumes⟩ := h.of_before (phase_ready pc)
      by_cases hdecided : s.decided = true
      · rw [if_pos hdecided]
        exact .after rfl waiting hdecided idle (Nat.le_of_eq resumes |>.trans (Nat.zero_le 1))
      · rw [if_neg hdecided]
        exact .before rfl waiting idle resumes
  | suspendNot pc decided =>
      obtain ⟨waiting, idle, resumes⟩ := h.of_before (phase_suspending pc)
      exact .after rfl waiting decided idle (Nat.le_of_eq resumes |>.trans (Nat.zero_le 1))
  | suspend pc racing =>
      obtain ⟨-, idle, resumes⟩ := h.of_before (phase_suspending pc)
      exact .parked rfl rfl racing idle resumes
  | run pc =>
      obtain ⟨waiting, decided, idle, resumes⟩ := h.of_after (phase_scheduled pc)
      exact .after rfl waiting decided idle resumes
  | finish pc =>
      obtain ⟨waiting, decided, idle, resumes⟩ := h.of_after (phase_resumed pc)
      exact .after rfl waiting decided idle resumes
  | pacerEnd | pacerTick => exact h.pass rfl rfl rfl rfl rfl
end Uvent.Net.HappyEyeballs
