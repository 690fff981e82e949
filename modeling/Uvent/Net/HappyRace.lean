import Uvent.Net.HappyWaking

/-!
# Safety and progress of the race

The pacer gives up only when nothing is left to launch and nothing comes, and an error is
returned only when every attempt has failed.
-/

namespace Uvent.Net.HappyEyeballs

variable {Addr : Type} {resolved delayed : Bool} {s s' : State Addr} {i : Nat} {v6 : Bool}

/-! ### The pacer and the error -/

def State.spent (s : State Addr) : Prop :=
  s.done = true ∨ (s.resolvesPending = 0 ∧ s.addrs.length ≤ s.nextIdx)

theorem spent_launchNext (h : s.spent) : s.launchNext.spent := by
  unfold State.spent
  rw [launchNext_done, launchNext_resolvesPending, launchNext_addrs]
  refine h.imp_right fun ⟨hpending, hle⟩ => ⟨hpending, hle.trans ?_⟩
  rcases launchNext_cases s with heq | ⟨-, -, heq⟩
  · rw [heq]
  · rw [heq]
    exact Nat.le_succ _

theorem Counts.spent_step (h : Counts s) (hspent : s.spent) (hstep : Step resolved delayed s s') :
    s'.spent := by
  cases hstep with
  | attemptOk i pc =>
      rcases connected_cases { s with finished := s.finished + 1 } i with ⟨-, heq⟩ | ⟨-, heq⟩
      · rw [heq]
        exact hspent
      · rw [heq]
        exact .inl rfl
  | attemptLaunch i wake pc => exact spent_launchNext hspent
  | pacerLaunch pc => exact spent_launchNext hspent
  | kickLaunch v6 wake pc => exact spent_launchNext hspent
  | answerApply v6 found pc =>
      obtain ⟨addrs, heq, -⟩ := applyAnswer_cases h.listed v6 found
      rw [heq]
      refine .inl (hspent.resolve_right fun ⟨hpending, _⟩ => ?_)
      have hsum := h.pending
      rw [hpending] at hsum
      cases v6 with
      | true =>
          rw [pc] at hsum
          exact absurd hsum (Nat.ne_of_lt (Nat.lt_of_lt_of_le Nat.zero_lt_one (Nat.le_add_right ..)))
      | false =>
          rw [pc] at hsum
          exact absurd hsum (Nat.ne_of_lt (Nat.succ_pos _))
  | _ => exact hspent

/-- The pacer ends when nothing is left for it, and an error is returned without a winner. -/
structure Ends (s : State Addr) : Prop where
  pacer : s.pacer = .ended → s.spent
  error : ∀ e, s.parent = .returned (.error e) → s.done = false

theorem Ends.pass (h : Ends s) (hcounts : Counts s) (hwaking : Waking s)
    (hstep : Step resolved delayed s s') (hpacer : s'.pacer = s.pacer)
    (hparent : s'.parent = s.parent) : Ends s' := by
  refine ⟨fun hended => ?_, fun e he => ?_⟩
  · rw [hpacer] at hended
    exact hcounts.spent_step (h.pacer hended) hstep
  · rw [hparent] at he
    have hdecided := (hwaking.of_after (by rw [he]; rfl)).2.1
    exact (hcounts.decided_step hstep hdecided).2 (h.error e he)

theorem Ends.parent (h : Ends s) (hcounts : Counts s) (hstep : Step resolved delayed s s')
    (hpacer : s'.pacer = s.pacer) (hparent : ∀ e, s'.parent ≠ .returned (.error e)) : Ends s' := by
  refine ⟨fun hended => ?_, fun e he => absurd he (hparent e)⟩
  rw [hpacer] at hended
  exact hcounts.spent_step (h.pacer hended) hstep

theorem Ends.step (h : Ends s) (hcounts : Counts s) (hwaking : Waking s) (houtcomes : Outcomes s)
    (hstep : Step resolved delayed s s') : Ends s' := by
  have hpass := h.pass hcounts hwaking hstep
  have hparent := h.parent hcounts hstep
  cases hstep with
  | attemptOk i pc =>
      rcases connected_cases { s with finished := s.finished + 1 } i with ⟨-, heq⟩ | ⟨-, heq⟩
      · rw [heq] at hpass ⊢
        exact hpass rfl rfl
      · rw [heq] at hpass ⊢
        exact hpass rfl rfl
  | attemptLaunch i wake pc => exact hpass (launchNext_pacer s) (launchNext_parent s)
  | kickLaunch v6 wake pc => exact hpass (launchNext_pacer s) (launchNext_parent s)
  | attemptWake i pc => exact hparent rfl nofun
  | resolverWake v6 pc => exact hparent rfl nofun
  | answerApply v6 found pc =>
      obtain ⟨addrs, heq, -⟩ := applyAnswer_cases hcounts.listed v6 found
      rw [heq] at hpass ⊢
      exact hpass rfl rfl
  | pacerEnd pc empty =>
      refine ⟨fun _ => ?_, h.error⟩
      rw [Bool.or_eq_true, Bool.and_eq_true, beq_iff_eq, decide_eq_true_eq] at empty
      exact empty
  | pacerTick pc empty => exact ⟨nofun, h.error⟩
  | pacerLaunch pc =>
      refine ⟨nofun, fun e he => ?_⟩
      rw [show ({ s.launchNext with pacer := .sleeping } : State Addr).parent = s.parent from
        launchNext_parent s] at he
      exact (launchNext_done s).trans (h.error e he)
  | ready pc =>
      refine hparent rfl fun e => ?_
      show (if s.decided = true then Parent.resumed else .suspending) ≠ _
      split <;> nofun
  | suspendNot pc decided => exact hparent rfl nofun
  | suspend pc racing => exact hparent rfl nofun
  | run pc => exact hparent rfl nofun
  | finish pc =>
      refine ⟨h.pacer, fun e he => ?_⟩
      have hres : s.result resolved = .error e := Parent.returned.inj he
      show s.done = false
      rw [houtcomes.won]
      unfold State.result at hres
      cases hwinner : s.winner with
      | none => rfl
      | some i =>
          rw [hwinner] at hres
          cases hres
  | _ => exact hpass rfl rfl

/-! ### Every run -/

structure Inv (s : State Addr) : Prop where
  counts : Counts s
  outcomes : Outcomes s
  waking : Waking s
  ends : Ends s

theorem outcomes_blank (addrs : List Addr) (maxAttempts : Nat) :
    Outcomes (State.blank addrs maxAttempts) where
  won := rfl
  stored := rfl
  winner := nofun
  succeeded := nofun
  settled := nofun
  running := fun _ _ => ⟨rfl, rfl⟩

theorem waking_blank (addrs : List Addr) (maxAttempts : Nat) :
    Waking (State.blank addrs maxAttempts) := by
  refine .before rfl rfl (fun c => ?_) rfl
  cases c <;> rfl

theorem inv_of_runs (h : Runs delayed resolved s) : Inv s := by
  induction h with
  | connectHappy maxAttempts =>
      have hruns : Runs delayed true (State.connectHappy maxAttempts : State Addr) :=
        .connectHappy maxAttempts
      refine ⟨counted_of_runs hruns, ?_, ?_, ⟨nofun, nofun⟩⟩
      · exact (outcomes_blank [] maxAttempts).pass
          ⟨rfl, rfl, rfl, rfl, rfl, fun _ => rfl, fun _ => rfl⟩
      · refine .before rfl rfl (fun c => ?_) rfl
        cases c <;> rfl
  | connectHappyAddrs addrs maxAttempts =>
      have hruns : Runs delayed false (State.connectHappyAddrs addrs maxAttempts) :=
        .connectHappyAddrs addrs maxAttempts
      have hcounts := counted_of_runs hruns
      rcases connectHappyAddrs_cases addrs maxAttempts with heq | ⟨listed, -, -, hsome, heq⟩
      · rw [heq] at hcounts ⊢
        refine ⟨hcounts, ?_, ?_, fun _ => .inr ⟨rfl, Nat.le_refl _⟩, fun _ _ => rfl⟩
        · exact (outcomes_blank [] maxAttempts).pass
            ⟨rfl, rfl, rfl, rfl, rfl, fun _ => rfl, fun _ => rfl⟩
        · refine .after rfl rfl rfl (fun c => ?_) (Nat.zero_le 1)
          cases c <;> rfl
      · rw [heq] at hcounts ⊢
        have hblank := counts_blank listed maxAttempts
        refine ⟨hcounts, ?_, ?_, fun hended => ?_, fun e he => ?_⟩
        · exact ((outcomes_blank listed maxAttempts).pass (sameOutcomes_launchNext hblank)).pass
            ⟨rfl, rfl, rfl, rfl, rfl, fun _ => rfl, fun _ => rfl⟩
        · exact ((waking_blank listed maxAttempts).launchNext hblank).pass rfl rfl rfl rfl rfl
        · have hone : ¬ 1 < listed.length := fun hlt => by
            have hsleeping : Pacer.sleeping = .ended := (if_pos hlt).symm.trans hended
            cases hsleeping
          refine .inr ⟨launchNext_resolvesPending _, ?_⟩
          show (State.blank listed maxAttempts).launchNext.addrs.length ≤
            (State.blank listed maxAttempts).launchNext.nextIdx
          have hpos : 0 < listed.length := List.length_pos_of_ne_nil hsome
          rw [launchNext_addrs, launchNext_nextIdx rfl hpos]
          exact Nat.le_of_not_lt hone
        · have hready : Parent.ready = .returned (.error e) :=
            (launchNext_parent (State.blank listed maxAttempts)).symm.trans he
          cases hready
  | step hs hstep ih =>
      obtain ⟨hcounts, houtcomes, hwaking, hends⟩ := ih
      exact ⟨hcounts.step hstep, houtcomes.step hcounts hstep, hwaking.step hcounts hstep,
        hends.step hcounts hwaking houtcomes hstep⟩

/-! ### Safety -/

structure Safe (s : State Addr) : Prop where
  resumed : s.resumes ≤ 1
  decided : s.parent.phase = .after → s.decided = true
  stored : s.stored ≤ 1
  winner : ∀ i, s.winner = some i → s.outcome i = some none ∧ s.shut i = false
  losers : ∀ i, s.outcome i = some none →
    s.winner = some i ∨ s.shut i = true ∨ (s.attempt i).lost = true
  finished : s.finished ≤ s.nextIdx
  listed : s.nextIdx ≤ s.addrs.length
  order : s.launched = s.addrs.take s.nextIdx
  once : s.launched.Subperm s.offered
  capped : 0 < s.maxAttempts → s.launched.length ≤ s.maxAttempts
  error : ∀ e, s.parent = .returned (.error e) →
    s.resolvesPending = 0 ∧ (∀ v6, (s.resolver v6).pending = false) ∧
      s.nextIdx = s.addrs.length ∧
      ∀ i < s.addrs.length, ∃ e', s.outcome i = some (some e')

/-- A step launches nothing, or the address that is next in the list as it stands, and resumes
the parent only when the race is decided. -/
structure SafeStep (s s' : State Addr) : Prop where
  launch : (s'.nextIdx = s.nextIdx ∧ s'.launched = s.launched) ∨
    (s'.nextIdx = s.nextIdx + 1 ∧
      ∃ a, s.addrs[s.nextIdx]? = some a ∧ s'.launched = s.launched ++ [a])
  resume : s'.resumes = s.resumes ∨ (s'.resumes = s.resumes + 1 ∧ s.decided = true)

theorem Inv.decided_of_wakes (h : Inv s) {c : Coro} (hc : s.wakes c = true) :
    s.decided = true := by
  rcases h.waking with ⟨-, -, idle, -⟩ | ⟨-, -, -, idle, -⟩ | ⟨-, -, -, decided, -⟩ |
    ⟨-, -, decided, -⟩
  · rw [idle c] at hc
    cases hc
  · rw [idle c] at hc
    cases hc
  · exact decided
  · exact decided

theorem safeStep_launchNext (s : State Addr) : SafeStep s s.launchNext := by
  rcases launchNext_cases s with heq | ⟨-, hlt, heq⟩
  · rw [heq]
    exact ⟨.inl ⟨rfl, rfl⟩, .inl rfl⟩
  · rw [heq]
    refine ⟨.inr ⟨rfl, s.addrs[s.nextIdx], List.getElem?_eq_getElem hlt, ?_⟩, .inl rfl⟩
    show s.launched ++ s.addrs[s.nextIdx]?.toList = _
    rw [List.getElem?_eq_getElem hlt]
    rfl

theorem Inv.safeStep (h : Inv s) (hstep : Step resolved delayed s s') : SafeStep s s' := by
  have hlaunch := safeStep_launchNext s
  cases hstep with
  | attemptOk i pc =>
      rcases connected_cases { s with finished := s.finished + 1 } i with ⟨-, heq⟩ | ⟨-, heq⟩
      · rw [heq]
        exact ⟨.inl ⟨rfl, rfl⟩, .inl rfl⟩
      · rw [heq]
        exact ⟨.inl ⟨rfl, rfl⟩, .inl rfl⟩
  | attemptLaunch i wake pc => exact ⟨hlaunch.launch, hlaunch.resume⟩
  | pacerLaunch pc => exact ⟨hlaunch.launch, hlaunch.resume⟩
  | kickLaunch v6 wake pc => exact ⟨hlaunch.launch, hlaunch.resume⟩
  | attemptWake i pc =>
      have hc : s.wakes (.attempt i) = true := congrArg Attempt.wakes pc
      exact ⟨.inl ⟨rfl, rfl⟩, .inr ⟨rfl, h.decided_of_wakes hc⟩⟩
  | resolverWake v6 pc =>
      have hc : s.wakes (.resolver v6) = true := congrArg Resolver.wakes pc
      exact ⟨.inl ⟨rfl, rfl⟩, .inr ⟨rfl, h.decided_of_wakes hc⟩⟩
  | answerApply v6 found pc =>
      obtain ⟨addrs, heq, -⟩ := applyAnswer_cases h.counts.listed v6 found
      rw [heq]
      exact ⟨.inl ⟨rfl, rfl⟩, .inl rfl⟩
  | _ => exact ⟨.inl ⟨rfl, rfl⟩, .inl rfl⟩

theorem Outcomes.failed (h : Outcomes s) (hracing : s.done = false)
    (hsettled : (s.attempt i).settled = true) (hnotLost : s.outcome i ≠ some none) :
    ∃ e, s.outcome i = some (some e) := by
  rcases h.settled i hsettled with hdone | ⟨res, hres⟩
  · exact absurd (hracing.symm.trans hdone) Bool.false_ne_true
  · cases res with
    | none => exact absurd hres hnotLost
    | some e => exact ⟨e, hres⟩

/-- Whatever the order of the answers, of the attempts and of the ticks. -/
theorem safe_of_race (h : Runs delayed resolved s) :
    Safe s ∧ ∀ s', Step resolved delayed s s' → SafeStep s s' := by
  have hlisting := listing_of_runs h
  obtain ⟨hcounts, houtcomes, hwaking, hends⟩ := inv_of_runs h
  refine ⟨?_, fun s' hstep => (inv_of_runs h).safeStep hstep⟩
  refine ⟨?_, fun hpc => (hwaking.of_after hpc).2.1, ?_, fun i hi => ?_,
    fun i hi => (houtcomes.succeeded i hi).2,
    hcounts.finished_le, hcounts.listed, hlisting.launched, ?_, fun hmax => ?_, fun e he => ?_⟩
  · rcases hwaking with ⟨-, -, -, hresumes⟩ | ⟨-, -, -, -, hresumes⟩ | ⟨-, -, -, -, -, hresumes⟩ |
      ⟨-, -, -, -, hresumes⟩
    · exact (Nat.le_of_eq hresumes).trans (Nat.zero_le 1)
    · exact (Nat.le_of_eq hresumes).trans (Nat.zero_le 1)
    · exact (Nat.le_of_eq hresumes).trans (Nat.zero_le 1)
    · exact hresumes
  · rw [houtcomes.stored]
    exact Bool.toNat_le _
  · exact ⟨(houtcomes.winner i hi).1, (houtcomes.winner i hi).2.1⟩
  · rw [hlisting.launched]
    refine List.Subperm.trans ?_ (hlisting.offered true)
    refine (List.take_sublist ..).subperm.trans ?_
    unfold State.known
    rw [List.append_assoc]
    exact (List.sublist_append_left ..).subperm
  · rw [hlisting.launched]
    exact (List.length_take_le' ..).trans (hlisting.capped hmax)
  · have hracing := hends.error e he
    have hdecided := (hwaking.of_after (by rw [he]; rfl)).2.1
    obtain ⟨hpending, hnext, -⟩ := (decided_iff.mp hdecided).resolve_left
      (by rw [hracing]; exact Bool.false_ne_true)
    obtain ⟨hsettled, hanswered⟩ := hcounts.still hdecided hracing
    refine ⟨hpending, hanswered, hnext, fun i hi => ?_⟩
    rw [← hnext] at hi
    have hlaunched : s.attempt i ≠ .absent := fun habsent =>
      absurd ((hcounts.absent i).mp habsent) (Nat.not_le_of_lt hi)
    refine houtcomes.failed hracing (hsettled i hlaunched) fun hok => ?_
    exact absurd (hracing.symm.trans (houtcomes.succeeded i hok).1) Bool.false_ne_true

/-- The answer has an address too many; the pacer launches the second attempt, which connects
while the parent waits, and then the first one connects, too, and shuts its socket down. -/
theorem raced_runs : ∃ s : State Nat, Runs false true s ∧ s.decided = true ∧
    s.parent.phase = .parked ∧ s.winner = some 1 ∧ s.shut 0 = true ∧ s.launched = [6, 66] ∧
    s.resumes = 0 ∧ s.attempt 1 = .finishing false false true := by
  have h₁ : Runs false true (.connectHappy 2 : State Nat) := .connectHappy 2
  have h₂ := (h₁.step (.ready rfl)).step (.suspend rfl rfl)
  have h₃ := (h₂.step (.answer true [6, 66, 67] rfl)).step (.answerApply true [6, 66, 67] rfl)
  have h₄ := (h₃.step (.kick true false rfl rfl)).step (.kickLaunch true false rfl)
  have h₅ := (h₄.step (.resolverEnd true rfl)).step (.attemptConnect 0 rfl rfl)
  have h₆ := (h₅.step (.pacerTick rfl rfl)).step (.pacerLaunch rfl)
  have h₇ := (h₆.step (.attemptConnect 1 rfl rfl)).step (.attemptOk 1 rfl)
  have h₈ := (h₇.step (.attemptOk 0 rfl)).step (.attemptShutdown 0 false false rfl)
  exact ⟨_, h₈, rfl, rfl, rfl, rfl, rfl, rfl, rfl⟩

theorem raced_safe : ∃ s : State Nat, (Safe s ∧ ∀ s', Step true false s s' → SafeStep s s') ∧
    s.resumes = 1 ∧ s.winner = some 1 ∧ s.shut 0 = true ∧ s.launched = [6, 66] := by
  obtain ⟨s, h, -, -, hwinner, hshut, hlaunched, hresumes, hpc⟩ := raced_runs
  refine ⟨_, safe_of_race (h.step (.attemptWake 1 hpc)), ?_, hwinner, hshut, hlaunched⟩
  exact congrArg (· + 1) hresumes

/-! ### Progress -/

def Resumable (resolved delayed : Bool) (s : State Addr) : Prop :=
  ∃ s', Relation.ReflTransGen (Step resolved delayed) s s' ∧ s'.parent = .scheduled

theorem Resumable.of_step (hstep : Step resolved delayed s s')
    (h : Resumable resolved delayed s') : Resumable resolved delayed s := by
  obtain ⟨s'', hsteps, hparent⟩ := h
  exact ⟨s'', .head hstep hsteps, hparent⟩

/-- An attempt that has the parent shuts its socket down and launches another one, if it has to,
and resumes the parent. -/
theorem attempt_resumes (hwakes : (s.attempt i).wakes = true) : Resumable resolved delayed s := by
  have hwake : ∀ s : State Addr, s.attempt i = .finishing false false true →
      Resumable resolved delayed s :=
    fun s pc => ⟨_, .single (.attemptWake i pc), rfl⟩
  have hearly : ∀ (s : State Addr) (early : Bool), s.attempt i = .finishing false early true →
      Resumable resolved delayed s := by
    intro s early pc
    cases early with
    | false => exact hwake s pc
    | true => exact (hwake _ (Function.update_self ..)).of_step (.attemptLaunch i true pc)
  cases pc : s.attempt i with
  | finishing lost early wake =>
      rw [pc] at hwakes
      obtain rfl : wake = true := hwakes
      cases lost with
      | false => exact hearly s early pc
      | true =>
          exact (hearly _ early (Function.update_self ..)).of_step (.attemptShutdown i early true pc)
  | _ =>
      rw [pc] at hwakes
      cases hwakes

theorem resolver_resumes (hwakes : (s.resolver v6).wakes = true) :
    Resumable resolved delayed s := by
  have hwake : ∀ s : State Addr, s.resolver v6 = .waking true → Resumable resolved delayed s :=
    fun s pc => ⟨_, .single (.resolverWake v6 pc), rfl⟩
  have hlaunch : ∀ s : State Addr, s.resolver v6 = .launching true →
      Resumable resolved delayed s :=
    fun s pc => (hwake _ (Function.update_self ..)).of_step (.kickLaunch v6 true pc)
  cases pc : s.resolver v6 with
  | kicking wake =>
      rw [pc] at hwakes
      obtain rfl : wake = true := hwakes
      cases hbusy : s.done || decide (s.addrs.length ≤ s.nextIdx) || s.finished != s.nextIdx with
      | false => exact (hlaunch _ (Function.update_self ..)).of_step (.kick v6 true pc hbusy)
      | true => exact (hwake _ (Function.update_self ..)).of_step (.kickSkip v6 true pc hbusy)
  | launching wake =>
      rw [pc] at hwakes
      obtain rfl : wake = true := hwakes
      exact hlaunch s pc
  | waking wake =>
      rw [pc] at hwakes
      obtain rfl : wake = true := hwakes
      exact hwake s pc
  | _ =>
      rw [pc] at hwakes
      cases hwakes

structure Live (resolved delayed : Bool) (s : State Addr) : Prop where
  outstanding : s.decided = false →
    (∃ v6, (s.resolver v6).pending = true) ∨
    (∃ i < s.nextIdx, (s.attempt i).settled = false) ∨
    (s.pacer ≠ .ended ∧ (s.nextIdx < s.addrs.length ∨ s.resolvesPending ≠ 0))
  handed : s.decided = true → s.parent.phase = .parked →
    s.parentWaiting = false ∧ (∃ c, s.wakes c = true) ∧ Resumable resolved delayed s

/-- An undecided race waits for something. -/
theorem Inv.outstanding (h : Inv s) (hracing : s.decided = false) :
    (∃ v6, (s.resolver v6).pending = true) ∨
    (∃ i < s.nextIdx, (s.attempt i).settled = false) ∨
    (s.pacer ≠ .ended ∧ (s.nextIdx < s.addrs.length ∨ s.resolvesPending ≠ 0)) := by
  have hundecided : ¬ s.decided = true := by
    rw [hracing]
    exact Bool.false_ne_true
  rw [decided_iff, not_or] at hundecided
  by_cases hpending : s.resolvesPending = 0
  · rcases Nat.lt_or_eq_of_le h.counts.listed with hlt | hall
    · refine .inr (.inr ⟨fun hended => ?_, .inl hlt⟩)
      rcases h.ends.pacer hended with hdone | ⟨-, hle⟩
      · exact hundecided.1 hdone
      · exact absurd hlt (Nat.not_lt_of_le hle)
    · refine .inr (.inl (h.counts.unsettled (Nat.lt_of_le_of_ne h.counts.finished_le fun heq => ?_)))
      exact hundecided.2 ⟨hpending, hall, heq.trans hall⟩
  · refine .inl ?_
    by_contra hnone
    refine hpending (h.counts.pending.trans ?_)
    have hanswered : ∀ v6, (s.resolver v6).pending = false := fun v6 =>
      Bool.not_eq_true _ ▸ fun hv6 => hnone ⟨v6, hv6⟩
    rw [hanswered, hanswered]
    rfl

/-- The parent of a decided race does not wait for a coroutine that is over. -/
theorem Waking.handed_of_decided (h : Waking s) (hdecided : s.decided = true)
    (hparked : s.parent.phase = .parked) : s.parentWaiting = false ∧ ∃ c, s.wakes c = true := by
  rcases h with ⟨pc, -⟩ | ⟨-, -, racing, -⟩ | ⟨c, -, waiting, -, holder, -⟩ | ⟨pc, -⟩
  · rw [hparked] at pc
    cases pc
  · rw [hdecided] at racing
    cases racing
  · exact ⟨waiting, c, (holder c).mpr rfl⟩
  · rw [hparked] at pc
    cases pc

/-- Whatever the order of the answers, of the attempts and of the ticks. -/
theorem live_of_race (h : Runs delayed resolved s) : Live resolved delayed s := by
  have hinv := inv_of_runs h
  refine ⟨hinv.outstanding, fun hdecided hparked => ?_⟩
  obtain ⟨hwaiting, c, hc⟩ := hinv.waking.handed_of_decided hdecided hparked
  refine ⟨hwaiting, ⟨c, hc⟩, ?_⟩
  cases c with
  | attempt i => exact attempt_resumes hc
  | resolver v6 => exact resolver_resumes hc

/-- The attempt that won has the parent, and the one that lost is done. -/
theorem raced_live : ∃ s : State Nat, Live true false s ∧ s.decided = true ∧
    s.parent.phase = .parked ∧ s.winner = some 1 ∧ s.shut 0 = true := by
  obtain ⟨s, h, hdecided, hparked, hwinner, hshut, -⟩ := raced_runs
  exact ⟨s, live_of_race h, hdecided, hparked, hwinner, hshut⟩

end Uvent.Net.HappyEyeballs
