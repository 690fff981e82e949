import Mathlib.Data.List.Perm.Subperm
import Mathlib.Data.Finset.Range
import Uvent.Lib.Tally
import Uvent.Net.HappyEyeballs

/-!
# Counts and lists of the race

`finished` counts the attempts that are over, the attempts launched so far are those below
`next_idx`, and their addresses are the front of the list, which the answers only extend behind
it.
-/

namespace Uvent.Net.HappyEyeballs

open Uvent.Lib

variable {Addr : Type} {resolved delayed : Bool} {s s' : State Addr} {i : Nat} {v6 : Bool}

def Attempt.settled : Attempt → Bool
  | .finishing .. | .ended => true
  | _ => false

def Resolver.pending : Resolver Addr → Bool
  | .resolving | .answered _ | .holding _ | .applying _ => true
  | _ => false

structure Counts (s : State Addr) : Prop where
  settled : Tallied Attempt.settled s.attempt s.finished
  absent : ∀ i, s.attempt i = .absent ↔ s.nextIdx ≤ i
  listed : s.nextIdx ≤ s.addrs.length
  pending : s.resolvesPending =
    (s.resolver true).pending.toNat + (s.resolver false).pending.toNat

theorem Counts.launched (h : Counts s) (hi : (s.attempt i).settled = true) : i < s.nextIdx := by
  by_contra hcontra
  rw [(h.absent i).mpr (Nat.le_of_not_lt hcontra)] at hi
  cases hi

theorem Counts.finished_le (h : Counts s) : s.finished ≤ s.nextIdx := by
  obtain ⟨threads, hmem, hcard⟩ := h.settled
  have hsub : threads ⊆ Finset.range s.nextIdx := fun i hi =>
    Finset.mem_range.mpr (h.launched ((hmem i).mp hi))
  have hle := Finset.card_le_card hsub
  rwa [hcard, Finset.card_range] at hle

/-- When as many attempts are over as were launched, all of these are. -/
theorem Counts.all_settled (h : Counts s) (heq : s.finished = s.nextIdx) (hi : i < s.nextIdx) :
    (s.attempt i).settled = true := by
  obtain ⟨threads, hmem, hcard⟩ := h.settled
  have hsub : threads ⊆ Finset.range s.nextIdx := fun i hi =>
    Finset.mem_range.mpr (h.launched ((hmem i).mp hi))
  have hall : threads = Finset.range s.nextIdx :=
    Finset.eq_of_subset_of_card_le hsub (by rw [Finset.card_range, hcard, heq])
  exact (hmem i).mp (hall ▸ Finset.mem_range.mpr hi)

theorem Counts.unsettled (h : Counts s) (hlt : s.finished < s.nextIdx) :
    ∃ i, i < s.nextIdx ∧ (s.attempt i).settled = false := by
  by_contra hcontra
  obtain ⟨threads, hmem, hcard⟩ := h.settled
  have hsub : Finset.range s.nextIdx ⊆ threads := by
    intro i hi
    refine (hmem i).mpr ?_
    by_contra hi'
    exact hcontra ⟨i, Finset.mem_range.mp hi, Bool.not_eq_true _ ▸ hi'⟩
  have hle := Finset.card_le_card hsub
  rw [Finset.card_range, hcard] at hle
  exact absurd hlt (Nat.not_lt_of_le hle)

structure SameCounts (s s' : State Addr) : Prop where
  attempt : s'.attempt = s.attempt
  resolver : s'.resolver = s.resolver
  addrs : s'.addrs = s.addrs
  nextIdx : s'.nextIdx = s.nextIdx
  finished : s'.finished = s.finished
  resolvesPending : s'.resolvesPending = s.resolvesPending

theorem Counts.pass (h : Counts s) (hsame : SameCounts s s') : Counts s' := by
  obtain ⟨hattempt, hresolver, haddrs, hnext, hfinished, hpending⟩ := hsame
  refine ⟨?_, ?_, ?_, ?_⟩
  · rw [hattempt, hfinished]
    exact h.settled
  · rw [hattempt, hnext]
    exact h.absent
  · rw [hnext, haddrs]
    exact h.listed
  · rw [hpending, hresolver]
    exact h.pending

theorem Counts.attempt (h : Counts s) {a : Attempt} (hold : s.attempt i ≠ .absent) (hnew : a ≠ .absent)
    (hsettled : a.settled = (s.attempt i).settled) : Counts (s.setAttempt i a) := by
  refine ⟨h.settled.same hsettled, fun j => ?_, h.listed, h.pending⟩
  show Function.update s.attempt i a j = .absent ↔ s.nextIdx ≤ j
  by_cases hj : j = i
  · rw [hj, Function.update_self]
    exact ⟨fun ha => absurd ha hnew, fun hle => absurd ((h.absent i).mpr hle) hold⟩
  · rw [Function.update_of_ne hj]
    exact h.absent j

theorem Counts.settle (h : Counts s) {a : Attempt} (hold : s.attempt i ≠ .absent)
    (hrunning : (s.attempt i).settled = false) (hnew : a.settled = true)
    (hattempt : s'.attempt = Function.update s.attempt i a) (hfinished : s'.finished = s.finished + 1)
    (hnext : s'.nextIdx = s.nextIdx) (haddrs : s'.addrs = s.addrs)
    (hresolver : s'.resolver = s.resolver) (hpending : s'.resolvesPending = s.resolvesPending) :
    Counts s' := by
  refine ⟨?_, fun j => ?_, ?_, ?_⟩
  · rw [hattempt, hfinished]
    exact h.settled.gain hrunning hnew
  · rw [hattempt, hnext]
    by_cases hj : j = i
    · rw [hj, Function.update_self]
      refine ⟨fun ha => ?_, fun hle => absurd ((h.absent i).mpr hle) hold⟩
      rw [ha] at hnew
      cases hnew
    · rw [Function.update_of_ne hj]
      exact h.absent j
  · rw [hnext, haddrs]
    exact h.listed
  · rw [hpending, hresolver]
    exact h.pending

theorem launchNext_cases (s : State Addr) : s.launchNext = s ∨
    (s.done = false ∧ s.nextIdx < s.addrs.length ∧
      s.launchNext =
        { s with
          nextIdx := s.nextIdx + 1,
          attempt := Function.update s.attempt s.nextIdx .spawned,
          launched := s.launched ++ s.addrs[s.nextIdx]?.toList }) := by
  unfold State.launchNext
  split
  · exact .inl rfl
  · rename_i hgo
    rw [Bool.or_eq_true, not_or, Bool.not_eq_true, decide_eq_true_eq, Nat.not_le] at hgo
    exact .inr ⟨hgo.1, hgo.2, rfl⟩

theorem launchNext_nextIdx (hracing : s.done = false) (hlt : s.nextIdx < s.addrs.length) :
    s.launchNext.nextIdx = s.nextIdx + 1 := by
  have hgo : ¬ (s.done || decide (s.addrs.length ≤ s.nextIdx)) = true := by
    rw [Bool.or_eq_true, hracing, decide_eq_true_eq, not_or]
    exact ⟨Bool.false_ne_true, Nat.not_le_of_lt hlt⟩
  exact congrArg State.nextIdx (if_neg hgo)

theorem Counts.launchNext (h : Counts s) : Counts s.launchNext := by
  rcases launchNext_cases s with heq | ⟨-, hlt, heq⟩
  · rw [heq]
    exact h
  · rw [heq]
    have hnone : s.attempt s.nextIdx = .absent := (h.absent _).mpr (Nat.le_refl _)
    refine ⟨h.settled.same (by rw [hnone]; rfl), fun j => ?_, hlt, h.pending⟩
    show Function.update s.attempt s.nextIdx .spawned j = .absent ↔ s.nextIdx + 1 ≤ j
    by_cases hj : j = s.nextIdx
    · rw [hj, Function.update_self]
      exact ⟨nofun, fun hle => absurd hle (Nat.not_succ_le_self _)⟩
    · rw [Function.update_of_ne hj, h.absent j]
      omega

theorem launchNext_attempt (h : Counts s) (hi : s.attempt i ≠ .absent) :
    s.launchNext.attempt i = s.attempt i := by
  rcases launchNext_cases s with heq | ⟨-, -, heq⟩
  · rw [heq]
  · rw [heq]
    have hne : i ≠ s.nextIdx := fun hi' => hi ((h.absent i).mpr (Nat.le_of_eq hi'.symm))
    exact Function.update_of_ne hne ..

@[simp]
theorem launchNext_done (s : State Addr) : s.launchNext.done = s.done := by
  rcases launchNext_cases s with heq | ⟨-, -, heq⟩
  · rw [heq]
  · rw [heq]

@[simp]
theorem launchNext_parent (s : State Addr) : s.launchNext.parent = s.parent := by
  rcases launchNext_cases s with heq | ⟨-, -, heq⟩
  · rw [heq]
  · rw [heq]

@[simp]
theorem launchNext_parentWaiting (s : State Addr) : s.launchNext.parentWaiting = s.parentWaiting := by
  rcases launchNext_cases s with heq | ⟨-, -, heq⟩
  · rw [heq]
  · rw [heq]

@[simp]
theorem launchNext_resumes (s : State Addr) : s.launchNext.resumes = s.resumes := by
  rcases launchNext_cases s with heq | ⟨-, -, heq⟩
  · rw [heq]
  · rw [heq]

@[simp]
theorem launchNext_resolvesPending (s : State Addr) : s.launchNext.resolvesPending = s.resolvesPending := by
  rcases launchNext_cases s with heq | ⟨-, -, heq⟩
  · rw [heq]
  · rw [heq]

@[simp]
theorem launchNext_addrs (s : State Addr) : s.launchNext.addrs = s.addrs := by
  rcases launchNext_cases s with heq | ⟨-, -, heq⟩
  · rw [heq]
  · rw [heq]

@[simp]
theorem launchNext_pacer (s : State Addr) : s.launchNext.pacer = s.pacer := by
  rcases launchNext_cases s with heq | ⟨-, -, heq⟩
  · rw [heq]
  · rw [heq]

@[simp]
theorem launchNext_offered (s : State Addr) : s.launchNext.offered = s.offered := by
  rcases launchNext_cases s with heq | ⟨-, -, heq⟩
  · rw [heq]
  · rw [heq]

@[simp]
theorem launchNext_resolver (s : State Addr) : s.launchNext.resolver = s.resolver := by
  rcases launchNext_cases s with heq | ⟨-, -, heq⟩
  · rw [heq]
  · rw [heq]

theorem Counts.resolver (h : Counts s) {r : Resolver Addr}
    (hpending : r.pending = (s.resolver v6).pending) : Counts (s.setResolver v6 r) := by
  refine ⟨h.settled, h.absent, h.listed, ?_⟩
  have hsame : ∀ b, (Function.update s.resolver v6 r b).pending = (s.resolver b).pending := by
    intro b
    by_cases hb : b = v6
    · rw [hb, Function.update_self, hpending]
    · rw [Function.update_of_ne hb]
  show s.resolvesPending = (Function.update s.resolver v6 r true).pending.toNat +
    (Function.update s.resolver v6 r false).pending.toNat
  rw [hsame, hsame]
  exact h.pending

/-! ### The list of addresses -/

theorem interleave_perm : ∀ first second : List Addr,
    (interleave first second).Perm (first ++ second)
  | [], second => List.Perm.refl second
  | a :: first, [] => by
      rw [List.append_nil]
      exact List.Perm.refl _
  | a :: first, b :: second => by
      show (a :: b :: interleave first second).Perm (a :: (first ++ b :: second))
      refine List.Perm.cons a ?_
      exact ((interleave_perm first second).cons b).trans List.perm_middle.symm

theorem foldl_push (cap : Nat) (l acc : List Addr) :
    l.foldl (fun addrs a => if addrs.length < cap then addrs ++ [a] else addrs) acc =
      acc ++ l.take (cap - acc.length) := by
  induction l generalizing acc with
  | nil => simp
  | cons a l ih =>
      rw [List.foldl_cons, ih]
      by_cases hroom : acc.length < cap
      · have hsub : cap - acc.length = (cap - (acc ++ [a]).length) + 1 := by
          rw [List.length_append, List.length_singleton]
          omega
        rw [if_pos hroom, hsub, List.take_succ_cons, List.append_assoc]
        rfl
      · have hzero : cap - acc.length = 0 := by omega
        rw [if_neg hroom, hzero, List.take_zero, List.take_zero]

def State.cap (s : State Addr) : Nat :=
  if s.maxAttempts ≠ 0 then max s.maxAttempts s.nextIdx else sizeMax

/-- What was launched stays in front, and the rest is some of the old tail and of the answer. -/
theorem weaveTail_addrs (h : s.nextIdx ≤ s.addrs.length) (found : List Addr) (first : Bool) :
    ∃ tail, (s.weaveTail found first).addrs = s.addrs.take s.nextIdx ++ tail ∧
      tail.Subperm (s.addrs.drop s.nextIdx ++ found) ∧ tail.length ≤ s.cap - s.nextIdx := by
  have hlen : (s.addrs.take s.nextIdx).length = s.nextIdx := by
    rw [List.length_take, Nat.min_eq_left h]
  have hadd : ∀ l : List Addr, l.foldl
      (fun addrs a => if addrs.length < s.cap then addrs ++ [a] else addrs)
      (s.addrs.take s.nextIdx) = s.addrs.take s.nextIdx ++ l.take (s.cap - s.nextIdx) := by
    intro l
    rw [foldl_push, hlen]
  cases first with
  | true =>
      refine ⟨_, hadd (interleave found (s.addrs.drop s.nextIdx)), ?_, List.length_take_le ..⟩
      refine (List.take_sublist ..).subperm.trans ?_
      exact ((interleave_perm _ _).trans List.perm_append_comm).subperm
  | false =>
      refine ⟨_, hadd (interleave (s.addrs.drop s.nextIdx) found), ?_, List.length_take_le ..⟩
      exact (List.take_sublist ..).subperm.trans (interleave_perm _ _).subperm
theorem applyAnswer_cases (h : s.nextIdx ≤ s.addrs.length) (v6 : Bool) (found : List Addr) :
    ∃ addrs, s.applyAnswer v6 found =
        { s with
          v6Resolved := s.v6Resolved || v6, resolvesPending := s.resolvesPending - 1,
          addrs := addrs } ∧
      (addrs = s.addrs ∨ ∃ tail, addrs = s.addrs.take s.nextIdx ++ tail ∧
        tail.Subperm (s.addrs.drop s.nextIdx ++ found) ∧ tail.length ≤ s.cap - s.nextIdx) := by
  unfold State.applyAnswer
  split
  · exact ⟨_, rfl, .inr (weaveTail_addrs h found v6)⟩
  · exact ⟨s.addrs, rfl, .inl rfl⟩

theorem Counts.answer (h : Counts s) {found : List Addr} {wake : Bool}
    (pc : s.resolver v6 = .applying found) :
    Counts ((s.applyAnswer v6 found).takeParent.setResolver v6 (.kicking wake)) := by
  obtain ⟨addrs, heq, haddrs⟩ := applyAnswer_cases h.listed v6 found
  rw [heq]
  refine ⟨h.settled, h.absent, ?_, ?_⟩
  · show s.nextIdx ≤ addrs.length
    rcases haddrs with rfl | ⟨tail, rfl, -, -⟩
    · exact h.listed
    · rw [List.length_append, List.length_take, Nat.min_eq_left h.listed]
      exact Nat.le_add_right _ _
  · have hpending := h.pending
    show s.resolvesPending - 1 = (Function.update s.resolver v6 (.kicking wake) true).pending.toNat +
      (Function.update s.resolver v6 (.kicking wake) false).pending.toNat
    cases v6 with
    | true =>
        rw [Function.update_self, Function.update_of_ne Bool.false_ne_true, hpending, pc]
        exact (Nat.add_sub_cancel_left ..).trans (Nat.zero_add _).symm
    | false =>
        rw [Function.update_self, Function.update_of_ne Bool.false_ne_true.symm, hpending, pc]
        exact Nat.add_sub_cancel ..

theorem Counts.step (h : Counts s) (hstep : Step resolved delayed s s') : Counts s' := by
  cases hstep with
  | attemptSkip i pc =>
      exact h.settle (by rw [pc]; nofun) (by rw [pc]; rfl) rfl rfl rfl rfl rfl rfl rfl
  | attemptConnect i pc => exact h.attempt (by rw [pc]; nofun) nofun (by rw [pc]; rfl)
  | attemptOk i pc =>
      have hconnected : SameCounts { s with finished := s.finished + 1 }
          ({ s with finished := s.finished + 1 }.connected i) := by
        unfold State.connected
        split
        · exact ⟨rfl, rfl, rfl, rfl, rfl, rfl⟩
        · exact ⟨rfl, rfl, rfl, rfl, rfl, rfl⟩
      obtain ⟨hattempt, hresolver, haddrs, hnext, hfinished, hpending⟩ := hconnected
      have hnew : (Attempt.finishing s.done false
        ({ s with finished := s.finished + 1 }.connected i).takes).settled = true := rfl
      refine h.settle (by rw [pc]; nofun) (by rw [pc]; rfl) hnew ?_ hfinished hnext haddrs
        hresolver hpending
      exact congrArg (fun own => Function.update own i _) hattempt
  | attemptFail i error pc =>
      exact h.settle (by rw [pc]; nofun) (by rw [pc]; rfl) rfl rfl rfl rfl rfl rfl rfl
  | attemptShutdown i early wake pc =>
      refine Counts.attempt ?_ ?_ nofun ?_
      · exact h.pass ⟨rfl, rfl, rfl, rfl, rfl, rfl⟩
      · show s.attempt i ≠ .absent
        rw [pc]
        nofun
      · show true = (s.attempt i).settled
        rw [pc]
        rfl
  | attemptLaunch i wake pc =>
      have hkept := launchNext_attempt h (by rw [pc]; nofun)
      exact h.launchNext.attempt (by rw [hkept, pc]; nofun) nofun (by rw [hkept, pc]; rfl)
  | attemptWake i pc =>
      refine Counts.attempt ?_ ?_ nofun ?_
      · exact h.pass ⟨rfl, rfl, rfl, rfl, rfl, rfl⟩
      · show s.attempt i ≠ .absent
        rw [pc]
        nofun
      · show true = (s.attempt i).settled
        rw [pc]
        rfl
  | attemptEnd i pc => exact h.attempt (by rw [pc]; nofun) nofun (by rw [pc]; rfl)
  | pacerEnd pc => exact h.pass ⟨rfl, rfl, rfl, rfl, rfl, rfl⟩
  | pacerTick pc => exact h.pass ⟨rfl, rfl, rfl, rfl, rfl, rfl⟩
  | pacerLaunch pc => exact h.launchNext.pass ⟨rfl, rfl, rfl, rfl, rfl, rfl⟩
  | answer v6 found pc =>
      refine Counts.resolver ?_ ?_
      · exact h.pass ⟨rfl, rfl, rfl, rfl, rfl, rfl⟩
      · show _ = (s.resolver v6).pending
        rw [pc]
        split <;> rfl
  | answerCheck v6 found pc =>
      refine h.resolver ?_
      rw [pc]
      split <;> rfl
  | answerHeld v6 found pc => exact h.resolver (by rw [pc]; rfl)
  | answerApply v6 found pc => exact h.answer pc
  | kickSkip v6 wake pc => exact h.resolver (by rw [pc]; rfl)
  | kick v6 wake pc => exact h.resolver (by rw [pc]; rfl)
  | kickLaunch v6 wake pc =>
      exact h.launchNext.resolver (by rw [launchNext_resolver, pc]; rfl)
  | resolverWake v6 pc =>
      refine Counts.resolver ?_ ?_
      · exact h.pass ⟨rfl, rfl, rfl, rfl, rfl, rfl⟩
      · show false = (s.resolver v6).pending
        rw [pc]
        rfl
  | resolverEnd v6 pc => exact h.resolver (by rw [pc]; rfl)
  | ready pc => exact h.pass ⟨rfl, rfl, rfl, rfl, rfl, rfl⟩
  | suspendNot pc => exact h.pass ⟨rfl, rfl, rfl, rfl, rfl, rfl⟩
  | suspend pc => exact h.pass ⟨rfl, rfl, rfl, rfl, rfl, rfl⟩
  | run pc => exact h.pass ⟨rfl, rfl, rfl, rfl, rfl, rfl⟩
  | finish pc => exact h.pass ⟨rfl, rfl, rfl, rfl, rfl, rfl⟩

theorem counts_blank (addrs : List Addr) (maxAttempts : Nat) :
    Counts (State.blank addrs maxAttempts) where
  settled := ⟨∅, fun _ => ⟨nofun, nofun⟩, rfl⟩
  absent := fun i => ⟨fun _ => Nat.zero_le i, fun _ => rfl⟩
  listed := Nat.zero_le _
  pending := rfl

/-- Without addresses `connect_happy_addrs` is over, and else some of them are listed and the first
is launched. -/
theorem connectHappyAddrs_cases (addrs : List Addr) (maxAttempts : Nat) :
    (State.connectHappyAddrs addrs maxAttempts =
      { State.blank [] maxAttempts with parent := .returned (.error .getAddrInfoFailed) }) ∨
    ∃ listed, listed.Sublist addrs ∧ (0 < maxAttempts → listed.length ≤ maxAttempts) ∧
      listed ≠ [] ∧
      State.connectHappyAddrs addrs maxAttempts =
        { (State.blank listed maxAttempts).launchNext with
          pacer := if 1 < listed.length then .sleeping else .ended, offered := addrs } := by
  unfold State.connectHappyAddrs
  split
  · exact .inl rfl
  · rename_i hsome
    rw [List.isEmpty_iff] at hsome
    refine .inr ⟨_, ?_, ?_, ?_, rfl⟩
    · split
      · exact List.take_sublist ..
      · exact List.Sublist.refl _
    · intro hpos
      split
      · exact List.length_take_le ..
      · rename_i hfits
        exact Nat.le_of_not_lt fun hlt => hfits ⟨hpos, hlt⟩
    · split
      · rename_i hmax
        rw [Ne, List.take_eq_nil_iff, not_or]
        exact ⟨Nat.ne_of_gt hmax.1, hsome⟩
      · exact hsome

theorem counted_of_runs (h : Runs delayed resolved s) : Counts s := by
  induction h with
  | connectHappy maxAttempts =>
      obtain ⟨hsettled, habsent, hlisted, -⟩ := counts_blank ([] : List Addr) maxAttempts
      exact ⟨hsettled, habsent, hlisted, rfl⟩
  | connectHappyAddrs addrs maxAttempts =>
      rcases connectHappyAddrs_cases addrs maxAttempts with heq | ⟨listed, -, -, -, heq⟩
      · rw [heq]
        exact (counts_blank [] maxAttempts).pass ⟨rfl, rfl, rfl, rfl, rfl, rfl⟩
      · rw [heq]
        exact (counts_blank _ maxAttempts).launchNext.pass ⟨rfl, rfl, rfl, rfl, rfl, rfl⟩
  | step _ hstep ih => exact ih.step hstep

/-! ### What is listed -/

def Resolver.found : Resolver Addr → List Addr
  | .answered found | .holding found | .applying found => found
  | _ => []

def State.known (s : State Addr) (v6 : Bool) : List Addr :=
  s.addrs ++ (s.resolver v6).found ++ (s.resolver !v6).found

structure Listing (s : State Addr) : Prop where
  launched : s.launched = s.addrs.take s.nextIdx
  capped : 0 < s.maxAttempts → s.addrs.length ≤ s.maxAttempts
  offered : ∀ v6, (s.known v6).Subperm s.offered

theorem Listing.pass (h : Listing s) (haddrs : s'.addrs = s.addrs)
    (hmax : s'.maxAttempts = s.maxAttempts) (hnext : s'.nextIdx = s.nextIdx)
    (hlaunched : s'.launched = s.launched) (hoffered : s'.offered = s.offered)
    (hfound : ∀ b, (s'.resolver b).found = (s.resolver b).found) : Listing s' := by
  refine ⟨?_, ?_, fun b => ?_⟩
  · rw [hlaunched, haddrs, hnext]
    exact h.launched
  · rw [hmax, haddrs]
    exact h.capped
  · unfold State.known
    rw [haddrs, hfound, hfound, hoffered]
    exact h.offered b

theorem found_setResolver {r : Resolver Addr} (hr : r.found = (s.resolver v6).found) (b : Bool) :
    ((s.setResolver v6 r).resolver b).found = (s.resolver b).found := by
  show (Function.update s.resolver v6 r b).found = _
  by_cases hb : b = v6
  · rw [hb, Function.update_self, hr]
  · rw [Function.update_of_ne hb]

theorem Listing.resolver (h : Listing s) {r : Resolver Addr}
    (hr : r.found = (s.resolver v6).found) : Listing (s.setResolver v6 r) :=
  h.pass rfl rfl rfl rfl rfl (found_setResolver hr)

theorem Listing.launchNext (h : Listing s) : Listing s.launchNext := by
  rcases launchNext_cases s with heq | ⟨-, hlt, heq⟩
  · rw [heq]
    exact h
  · rw [heq]
    refine ⟨?_, h.capped, h.offered⟩
    show s.launched ++ s.addrs[s.nextIdx]?.toList = s.addrs.take (s.nextIdx + 1)
    rw [h.launched, List.take_add_one]

theorem offered_both {offered : List Addr} (v6 : Bool) (h : (s.known v6).Subperm offered) (b : Bool) :
    (s.known b).Subperm offered := by
  by_cases hb : b = v6
  · rw [hb]
    exact h
  · have hnot : b = !v6 := Bool.eq_not_of_ne hb
    refine List.Perm.subperm ?_ |>.trans h
    unfold State.known
    rw [hnot, Bool.not_not, List.append_assoc, List.append_assoc]
    exact List.perm_append_comm.append_left s.addrs

theorem Listing.answered (h : Listing s) {found : List Addr} {r : Resolver Addr}
    (hold : (s.resolver v6).found = []) (hr : r.found = found) :
    Listing ({ s with offered := s.offered ++ found }.setResolver v6 r) := by
  refine ⟨h.launched, h.capped, offered_both (!v6) ?_⟩
  have hknown := h.offered !v6
  unfold State.known at hknown ⊢
  rw [Bool.not_not] at hknown ⊢
  rw [hold, List.append_nil] at hknown
  show (s.addrs ++ (Function.update s.resolver v6 r !v6).found ++
    (Function.update s.resolver v6 r v6).found).Subperm (s.offered ++ found)
  rw [Function.update_of_ne (Bool.not_ne_self v6), Function.update_self, hr]
  exact (List.subperm_append_right found).mpr hknown

theorem Listing.answer (h : Listing s) (hcounts : Counts s) {found : List Addr} {wake : Bool}
    (pc : s.resolver v6 = .applying found) :
    Listing ((s.applyAnswer v6 found).takeParent.setResolver v6 (.kicking wake)) := by
  obtain ⟨addrs, heq, haddrs⟩ := applyAnswer_cases hcounts.listed v6 found
  rw [heq]
  refine ⟨?_, fun hmax => ?_, offered_both v6 ?_⟩
  · show s.launched = addrs.take s.nextIdx
    rcases haddrs with rfl | ⟨tail, rfl, -, -⟩
    · exact h.launched
    · rw [List.take_append_of_le_length, List.take_take, Nat.min_self]
      · exact h.launched
      · rw [List.length_take, Nat.min_eq_left hcounts.listed]
  · have hpos : 0 < s.maxAttempts := hmax
    have hcapped := h.capped hpos
    show addrs.length ≤ s.maxAttempts
    rcases haddrs with rfl | ⟨tail, rfl, -, hlen⟩
    · exact hcapped
    · have hlisted := hcounts.listed
      have hcap : s.cap = s.maxAttempts := by
        unfold State.cap
        rw [if_pos (Nat.ne_of_gt hpos), Nat.max_eq_left (hlisted.trans hcapped)]
      rw [List.length_append, List.length_take, Nat.min_eq_left hlisted]
      omega
  · have hknown := h.offered v6
    unfold State.known at hknown ⊢
    rw [pc] at hknown
    show (addrs ++ (Function.update s.resolver v6 (.kicking wake) v6).found ++
      (Function.update s.resolver v6 (.kicking wake) !v6).found).Subperm s.offered
    rw [Function.update_self, Function.update_of_ne (Bool.not_ne_self v6)]
    refine List.Subperm.trans ((List.subperm_append_right _).mpr ?_) hknown
    show (addrs ++ []).Subperm (s.addrs ++ found)
    rw [List.append_nil]
    rcases haddrs with rfl | ⟨tail, rfl, htail, -⟩
    · exact (List.sublist_append_left ..).subperm
    · have hall : s.addrs.take s.nextIdx ++ (s.addrs.drop s.nextIdx ++ found) =
          s.addrs ++ found := by
        rw [← List.append_assoc, List.take_append_drop]
      rw [← hall]
      exact (List.subperm_append_left _).mpr htail

theorem Listing.step (h : Listing s) (hcounts : Counts s) (hstep : Step resolved delayed s s') :
    Listing s' := by
  cases hstep with
  | attemptOk i pc =>
      have hconnected : Listing ({ s with finished := s.finished + 1 }.connected i) := by
        unfold State.connected
        split
        · exact h.pass rfl rfl rfl rfl rfl fun _ => rfl
        · exact h.pass rfl rfl rfl rfl rfl fun _ => rfl
      exact hconnected.pass rfl rfl rfl rfl rfl fun _ => rfl
  | attemptLaunch i wake pc => exact h.launchNext.pass rfl rfl rfl rfl rfl fun _ => rfl
  | pacerLaunch pc => exact h.launchNext.pass rfl rfl rfl rfl rfl fun _ => rfl
  | answer v6 found pc =>
      refine h.answered (by rw [pc]; rfl) ?_
      split <;> rfl
  | answerCheck v6 found pc =>
      refine h.resolver ?_
      rw [pc]
      split <;> rfl
  | answerHeld v6 found pc => exact h.resolver (by rw [pc]; rfl)
  | answerApply v6 found pc => exact h.answer hcounts pc
  | kickSkip v6 wake pc => exact h.resolver (by rw [pc]; rfl)
  | kick v6 wake pc => exact h.resolver (by rw [pc]; rfl)
  | kickLaunch v6 wake pc =>
      exact h.launchNext.resolver (by rw [launchNext_resolver, pc]; rfl)
  | resolverWake v6 pc =>
      have hfound : (Resolver.ended : Resolver Addr).found = (s.resolver v6).found := by
        rw [pc]
        rfl
      exact h.pass rfl rfl rfl rfl rfl (found_setResolver hfound)
  | resolverEnd v6 pc => exact h.resolver (by rw [pc]; rfl)
  | attemptSkip | attemptConnect | attemptFail | attemptShutdown | attemptWake | attemptEnd
  | pacerEnd | pacerTick | ready | suspendNot | suspend | run | finish =>
      exact h.pass rfl rfl rfl rfl rfl fun _ => rfl

theorem listing_blank {addrs : List Addr} {maxAttempts : Nat}
    (h : 0 < maxAttempts → addrs.length ≤ maxAttempts) : Listing (State.blank addrs maxAttempts) := by
  refine ⟨rfl, h, fun _ => ?_⟩
  show (addrs ++ [] ++ []).Subperm addrs
  rw [List.append_nil, List.append_nil]

theorem listing_of_runs (h : Runs delayed resolved s) : Listing s := by
  induction h with
  | connectHappy maxAttempts =>
      exact ⟨rfl, fun _ => Nat.zero_le _, fun _ => List.Subperm.refl _⟩
  | connectHappyAddrs addrs maxAttempts =>
      rcases connectHappyAddrs_cases addrs maxAttempts with heq | ⟨listed, hsub, hcap, -, heq⟩
      · rw [heq]
        exact ⟨rfl, fun _ => Nat.zero_le _, fun _ => List.Subperm.refl _⟩
      · rw [heq]
        obtain ⟨hlaunched, hcapped, hoffered⟩ := (listing_blank hcap).launchNext
        refine ⟨hlaunched, hcapped, fun b => (hoffered b).trans ?_⟩
        rw [launchNext_offered]
        exact hsub.subperm
  | step hs hstep ih => exact ih.step (counted_of_runs hs) hstep

end Uvent.Net.HappyEyeballs
