import Uvent.Net.HappyCounts

/-!
# How the attempts end

At most one attempt wins.  The socket of any other one that connects is shut down before the
attempt is over.
-/

namespace Uvent.Net.HappyEyeballs

variable {Addr : Type} {resolved delayed : Bool} {s s' : State Addr} {i : Nat}

def Attempt.lost : Attempt → Bool
  | .finishing lost _ _ => lost
  | _ => false

structure Outcomes (s : State Addr) : Prop where
  won : s.done = s.winner.isSome
  stored : s.stored = s.done.toNat
  winner : ∀ i, s.winner = some i → s.outcome i = some none ∧ s.shut i = false ∧
    (s.attempt i).lost = false
  succeeded : ∀ i, s.outcome i = some none →
    s.done = true ∧ (s.winner = some i ∨ s.shut i = true ∨ (s.attempt i).lost = true)
  settled : ∀ i, (s.attempt i).settled = true → s.done = true ∨ ∃ res, s.outcome i = some res
  running : ∀ i, (s.attempt i).settled = false → s.outcome i = none ∧ s.shut i = false

structure SameOutcomes (s s' : State Addr) : Prop where
  done : s'.done = s.done
  winner : s'.winner = s.winner
  stored : s'.stored = s.stored
  outcome : s'.outcome = s.outcome
  shut : s'.shut = s.shut
  settled : ∀ i, (s'.attempt i).settled = (s.attempt i).settled
  lost : ∀ i, (s'.attempt i).lost = (s.attempt i).lost

theorem Outcomes.pass (h : Outcomes s) (hsame : SameOutcomes s s') : Outcomes s' := by
  obtain ⟨hdone, hwinner, hstored, houtcome, hshut, hsettled, hlost⟩ := hsame
  refine ⟨?_, ?_, fun i => ?_, fun i => ?_, fun i => ?_, fun i => ?_⟩
  · rw [hdone, hwinner]
    exact h.won
  · rw [hstored, hdone]
    exact h.stored
  · rw [hwinner, houtcome, hshut, hlost]
    exact h.winner i
  · rw [hdone, hwinner, houtcome, hshut, hlost]
    exact h.succeeded i
  · rw [hsettled, hdone, houtcome]
    exact h.settled i
  · rw [hsettled, houtcome, hshut]
    exact h.running i

/-- What is true of an attempt and of what becomes of it holds of all as before. -/
theorem attempt_same {f : Attempt → Bool} {own : Nat → Attempt} {a : Attempt}
    (ha : f a = f (own i)) (j : Nat) : f (Function.update own i a j) = f (own j) := by
  by_cases hj : j = i
  · rw [hj, Function.update_self, ha]
  · rw [Function.update_of_ne hj]

theorem sameOutcomes_setAttempt {a : Attempt} (hsettled : a.settled = (s.attempt i).settled)
    (hlost : a.lost = (s.attempt i).lost) : SameOutcomes s (s.setAttempt i a) :=
  ⟨rfl, rfl, rfl, rfl, rfl, attempt_same hsettled, attempt_same hlost⟩

theorem sameOutcomes_launchNext (h : Counts s) : SameOutcomes s s.launchNext := by
  rcases launchNext_cases s with heq | ⟨-, -, heq⟩
  · rw [heq]
    exact ⟨rfl, rfl, rfl, rfl, rfl, fun _ => rfl, fun _ => rfl⟩
  · rw [heq]
    have hnone : s.attempt s.nextIdx = .absent := (h.absent _).mpr (Nat.le_refl _)
    exact ⟨rfl, rfl, rfl, rfl, rfl, attempt_same (by rw [hnone]; rfl),
      attempt_same (by rw [hnone]; rfl)⟩

theorem Outcomes.skip (h : Outcomes s) {a : Attempt} (pc : s.attempt i = .spawned)
    (hdone : s.done = true) (hlost : a.lost = false) : Outcomes (s.setAttempt i a) := by
  have hrunning := h.running i (by rw [pc]; rfl)
  have hsame : ∀ j, ((s.setAttempt i a).attempt j).lost = (s.attempt j).lost :=
    attempt_same (by rw [hlost, pc]; rfl)
  refine ⟨h.won, h.stored, fun j => ?_, fun j => ?_, fun _ _ => .inl hdone, fun j hj => ?_⟩
  · rw [hsame]
    exact h.winner j
  · rw [hsame]
    exact h.succeeded j
  · show s.outcome j = none ∧ s.shut j = false
    by_cases hji : j = i
    · rw [hji]
      exact hrunning
    · refine h.running j ?_
      rwa [show (s.setAttempt i a).attempt j = s.attempt j from Function.update_of_ne hji ..] at hj

theorem connected_cases (s : State Addr) (i : Nat) :
    (s.done = true ∧ s.connected i = s) ∨
    (s.done = false ∧
      s.connected i = { s with done := true, winner := some i, stored := s.stored + 1 }) := by
  unfold State.connected
  split
  · rename_i hdone
    exact .inl ⟨hdone, rfl⟩
  · rename_i hdone
    exact .inr ⟨Bool.not_eq_true _ ▸ hdone, rfl⟩

structure Settles (i : Nat) (res : Option ConnectError) (s s' : State Addr) : Prop where
  connecting : s.attempt i = .connecting
  settled : (s'.attempt i).settled = true
  others : ∀ j, j ≠ i → s'.attempt j = s.attempt j
  outcome : s'.outcome i = some res
  outcomes : ∀ j, j ≠ i → s'.outcome j = s.outcome j
  shut : s'.shut = s.shut

theorem settles {a : Attempt} {res : Option ConnectError} (pc : s.attempt i = .connecting)
    (ha : a.settled = true) (hattempt : s'.attempt = Function.update s.attempt i a)
    (houtcome : s'.outcome = Function.update s.outcome i (some res)) (hshut : s'.shut = s.shut) :
    Settles i res s s' := by
  refine ⟨pc, ?_, fun j hji => ?_, ?_, fun j hji => ?_, hshut⟩
  · rw [hattempt, Function.update_self]
    exact ha
  · rw [hattempt, Function.update_of_ne hji]
  · rw [houtcome, Function.update_self]
  · rw [houtcome, Function.update_of_ne hji]

theorem Outcomes.loser (h : Outcomes s) (pc : s.attempt i = .connecting) {j : Nat}
    (hj : s.winner = some j) : j ≠ i := by
  rintro rfl
  have hnone := (h.running j (by rw [pc]; rfl)).1
  rw [(h.winner j hj).1] at hnone
  cases hnone

/-- An attempt fails, or connects when there is a winner. -/
theorem Outcomes.settle (h : Outcomes s) {res : Option ConnectError} (hsettles : Settles i res s s')
    (hdone : s'.done = s.done) (hwinner : s'.winner = s.winner) (hstored : s'.stored = s.stored)
    (hlost : res = none → s.done = true ∧ (s'.attempt i).lost = true) : Outcomes s' := by
  obtain ⟨pc, hsettled, hothers, houtcome, houtcomes, hshut⟩ := hsettles
  refine ⟨?_, ?_, fun j hj => ?_, fun j hj => ?_, fun j hj => ?_, fun j hj => ?_⟩
  · rw [hdone, hwinner]
    exact h.won
  · rw [hstored, hdone]
    exact h.stored
  · rw [hwinner] at hj
    have hji := h.loser pc hj
    rw [houtcomes j hji, hshut, hothers j hji]
    exact h.winner j hj
  · rw [hdone, hwinner, hshut]
    by_cases hji : j = i
    · rw [hji, houtcome] at hj
      rw [hji]
      exact (hlost (Option.some.inj hj)).imp_right fun hlost => .inr (.inr hlost)
    · rw [houtcomes j hji] at hj
      rw [hothers j hji]
      exact h.succeeded j hj
  · rw [hdone]
    by_cases hji : j = i
    · rw [hji]
      exact .inr ⟨res, houtcome⟩
    · rw [hothers j hji] at hj
      rw [houtcomes j hji]
      exact h.settled j hj
  · have hji : j ≠ i := by
      rintro rfl
      rw [hsettled] at hj
      cases hj
    rw [hothers j hji] at hj
    rw [houtcomes j hji, hshut]
    exact h.running j hj

theorem Outcomes.win (h : Outcomes s) (hsettles : Settles i none s s') (hracing : s.done = false)
    (hdone : s'.done = true) (hwinner : s'.winner = some i) (hstored : s'.stored = s.stored + 1)
    (hlost : (s'.attempt i).lost = false) : Outcomes s' := by
  obtain ⟨pc, hsettled, hothers, houtcome, houtcomes, hshut⟩ := hsettles
  refine ⟨?_, ?_, fun j hj => ?_, fun j hj => ?_, fun j hj => .inl hdone, fun j hj => ?_⟩
  · rw [hdone, hwinner]
    rfl
  · rw [hstored, hdone, h.stored, hracing]
    rfl
  · obtain rfl : i = j := Option.some.inj (hwinner.symm.trans hj)
    refine ⟨houtcome, ?_, hlost⟩
    rw [hshut]
    exact (h.running i (by rw [pc]; rfl)).2
  · refine ⟨hdone, ?_⟩
    by_cases hji : j = i
    · rw [hji]
      exact .inl hwinner
    · rw [houtcomes j hji] at hj
      exact absurd (hracing.symm.trans (h.succeeded j hj).1) Bool.false_ne_true
  · have hji : j ≠ i := by
      rintro rfl
      rw [hsettled] at hj
      cases hj
    rw [hothers j hji] at hj
    rw [houtcomes j hji, hshut]
    exact h.running j hj
theorem Outcomes.shutdown (h : Outcomes s) {early wake : Bool}
    (pc : s.attempt i = .finishing true early wake) :
    Outcomes ({ s with shut := Function.update s.shut i true }.setAttempt i
      (.finishing false early wake)) := by
  have hsettled : ∀ j, (Function.update s.attempt i (.finishing false early wake) j).settled =
      (s.attempt j).settled := attempt_same (by rw [pc]; rfl)
  refine ⟨h.won, h.stored, fun j hj => ?_, fun j hj => ?_, fun j hj => ?_, fun j hj => ?_⟩
  · have hwins := h.winner j hj
    have hji : j ≠ i := by
      rintro rfl
      rw [pc] at hwins
      cases hwins.2.2
    refine ⟨hwins.1, ?_, ?_⟩
    · exact (Function.update_of_ne hji ..).trans hwins.2.1
    · exact (congrArg Attempt.lost (Function.update_of_ne hji ..)).trans hwins.2.2
  · refine (h.succeeded j hj).imp_right fun hloser => ?_
    show s.winner = some j ∨ Function.update s.shut i true j = true ∨
      (Function.update s.attempt i (.finishing false early wake) j).lost = true
    by_cases hji : j = i
    · rw [hji, Function.update_self]
      exact .inr (.inl rfl)
    · rw [Function.update_of_ne hji, Function.update_of_ne hji]
      exact hloser
  · exact h.settled j ((hsettled j).symm.trans hj)
  · have hrunning := h.running j ((hsettled j).symm.trans hj)
    have hji : j ≠ i := by
      rintro rfl
      have hover := (hsettled j).symm.trans hj
      rw [pc] at hover
      cases hover
    exact ⟨hrunning.1, (Function.update_of_ne hji ..).trans hrunning.2⟩

theorem Outcomes.step (h : Outcomes s) (hcounts : Counts s)
    (hstep : Step resolved delayed s s') : Outcomes s' := by
  cases hstep with
  | attemptSkip i pc done =>
      have hskip := h.skip (a := .finishing false false { s with finished := s.finished + 1 }.takes)
        pc done rfl
      exact hskip.pass ⟨rfl, rfl, rfl, rfl, rfl, fun _ => rfl, fun _ => rfl⟩
  | attemptConnect i pc =>
      exact h.pass (sameOutcomes_setAttempt (by rw [pc]; rfl) (by rw [pc]; rfl))
  | attemptOk i pc =>
      have hlost : ∀ a : Attempt, (Function.update s.attempt i a i).lost = a.lost := by
        intro a
        rw [Function.update_self]
      rcases connected_cases { s with finished := s.finished + 1 } i with ⟨hdone, heq⟩ | ⟨hdone, heq⟩
      · rw [heq]
        have ha : (Attempt.finishing s.done false
          { s with finished := s.finished + 1 }.takes).settled = true := rfl
        exact h.settle (settles pc ha rfl rfl rfl) rfl rfl rfl fun _ =>
          ⟨hdone, (hlost _).trans hdone⟩
      · rw [heq]
        have ha : (Attempt.finishing s.done false
          { s with
            finished := s.finished + 1, done := true, winner := some i,
            stored := s.stored + 1 }.takes).settled = true := rfl
        exact h.win (settles pc ha rfl rfl rfl) hdone rfl rfl rfl ((hlost _).trans hdone)
  | attemptFail i error pc =>
      have ha : (Attempt.finishing false (!s.done && decide (s.nextIdx < s.addrs.length))
        { s with finished := s.finished + 1 }.takes).settled = true := rfl
      exact h.settle (settles pc ha rfl rfl rfl) rfl rfl rfl nofun
  | attemptShutdown i early wake pc => exact h.shutdown pc
  | attemptLaunch i wake pc =>
      have hkept := launchNext_attempt hcounts (by rw [pc]; nofun)
      refine (h.pass (sameOutcomes_launchNext hcounts)).pass (sameOutcomes_setAttempt ?_ ?_)
      · rw [hkept, pc]
        rfl
      · rw [hkept, pc]
        rfl
  | attemptWake i pc =>
      exact (h.pass (sameOutcomes_setAttempt (a := .ended) (by rw [pc]; rfl) (by rw [pc]; rfl))).pass
        ⟨rfl, rfl, rfl, rfl, rfl, fun _ => rfl, fun _ => rfl⟩
  | attemptEnd i pc =>
      exact h.pass (sameOutcomes_setAttempt (by rw [pc]; rfl) (by rw [pc]; rfl))
  | pacerLaunch pc =>
      exact (h.pass (sameOutcomes_launchNext hcounts)).pass
        ⟨rfl, rfl, rfl, rfl, rfl, fun _ => rfl, fun _ => rfl⟩
  | kickLaunch v6 wake pc =>
      exact (h.pass (sameOutcomes_launchNext hcounts)).pass
        ⟨rfl, rfl, rfl, rfl, rfl, fun _ => rfl, fun _ => rfl⟩
  | answerApply v6 found pc =>
      obtain ⟨addrs, heq, -⟩ := applyAnswer_cases hcounts.listed v6 found
      rw [heq]
      exact h.pass ⟨rfl, rfl, rfl, rfl, rfl, fun _ => rfl, fun _ => rfl⟩
  | pacerEnd | pacerTick | answer | answerCheck | answerHeld | kickSkip | kick | resolverWake
  | resolverEnd | ready | suspendNot | suspend | run | finish =>
      exact h.pass ⟨rfl, rfl, rfl, rfl, rfl, fun _ => rfl, fun _ => rfl⟩

end Uvent.Net.HappyEyeballs
