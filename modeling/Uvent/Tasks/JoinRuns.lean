import Uvent.Tasks.JoinWakes

/-!
# Runs with joins

What the counters, the wait lists and the flags know of each other is kept by every step but
one.  In the shared build the rest of an `await_suspend` may find the node in the list again
that its coroutine has put there for a later join, and takes that join for its own.
-/

namespace Uvent.Tasks.Joins

open Uvent.Lib Uvent.Sync
open Uvent.Net.StateWord (Build)

structure Books (s : State) : Prop where
  rooted : Rooted s
  counted : Counted s
  waits : Waits s
  seen : Seen s

section Books

variable {build : Build} {s s' : State} {e : Event} {j n m : Nat} {a : Await}

open Classical in
theorem books_new : Books .new := by
  refine ⟨⟨?_, ?_, fun _ _ => rfl, ?_⟩, ?_, ⟨?_, ?_, ?_, ?_, ?_, ?_, ?_, ?_⟩, ?_⟩
  · intro b p hp
    cases hp
  · intro b p hp
    cases hp
  · intro n m hat
    cases hat
  · intro m
    refine tallied_zero_iff.mpr fun n => ?_
    exact decide_eq_false id
  · intro j a
    simp [State.new, Pc.node]
  · intro a
    exact List.nodup_nil
  · intro j
    exact Nat.le_refl _
  · rintro j m ⟨hnode, -⟩
    cases hnode
  · rintro j n ⟨hnode, -⟩
    cases hnode
  · rintro n (hstatus | hphase)
    · cases hstatus
    · cases hphase
  · rintro n (hphase | hphase) <;> cases hphase
  · intro j a hparked
    cases hparked
  · intro j m hawait
    cases hawait

theorem Books.behind (hrooted : Rooted s) (hcounted : Counted s) (hwaits : Waits s) :
    Books s.observe where
  rooted := hrooted.of_sameTree ⟨rfl, rfl, rfl, rfl⟩
  counted := hcounted.of_same ⟨rfl, rfl, rfl, rfl⟩
  waits := hwaits.observe
  seen := seen_observe s

theorem Books.behind_co (h : Books s) (hsame : SameTree s s') (hwaits : Waits s') :
    Books s'.observe :=
  .behind (h.rooted.of_sameTree hsame) (h.counted.of_same hsame) hwaits

theorem sameTree_setCo (s : State) (j : Nat) (c : Coroutine) : SameTree s (s.setCo j c) :=
  ⟨rfl, rfl, rfl, rfl⟩

theorem sameTree_setWaiters (s : State) (a : Await) (l : WaitList Nat) (j : Nat) (c : Coroutine) :
    SameTree s ((s.setWaiters a l).setCo j c) :=
  ⟨rfl, rfl, rfl, rfl⟩

theorem sameTree_suspend (s : State) (j : Nat) : SameTree s (s.suspend j) := by
  unfold State.suspend
  cases (s.co j).pc with
  | away | parked => exact ⟨rfl, rfl, rfl, rfl⟩
  | ready | check => exact sameTree_setCo ..
  | push | remove => exact sameTree_setWaiters ..

theorem Books.addNode (h : Books s) {p : Option Nat} {phase : Phase}
    (hp : ∀ q, p = some q → s.phase q ≠ .absent)
    (hphase : phase = .scope ∨ phase = .retaining (some s.next)) :
    Books (s.addNode p phase).observe :=
  .behind (h.rooted.addNode hp hphase) (h.counted.addNode h.rooted hphase)
    (addNode_waits h.waits h.rooted hphase)

/-- A late rest that does not find the node leaves the list alone. -/
theorem setCo_late (hout : j ∉ s.waiters a) (rests : List Rest) :
    (s.setWaiters a ((s.waiters a).removeLocked j).2).setCo j
      { s.co j with
        pc := if ((s.waiters a).removeLocked j).1 then .away else (s.co j).pc,
        rests := rests } = s.setCo j { s.co j with rests := rests } := by
  have hsame : s.setWaiters a (s.waiters a) = s := by
    unfold State.setWaiters
    rw [Function.update_eq_self]
  rw [removeLocked_of_notMem hout, hsame]
  rfl

theorem step_books (h : Books s) (htimely : Timely s e) (hstep : Step build s e s') : Books s' := by
  cases hstep with
  | newScope p hp => exact h.addNode hp (.inl rfl)
  | spawn p hp => exact h.addNode hp (.inr rfl)
  | advance n =>
      exact .behind (h.rooted.advance n) (h.counted.advance h.rooted n)
        (advance_waits h.waits h.seen n)
  | call j a away => exact h.behind_co (sameTree_setCo ..) (call_waits h.waits away)
  | suspend j => exact h.behind_co (sameTree_suspend s j) (suspend_waits h.waits h.seen j)
  | resume j a parked queued =>
      exact h.behind_co (sameTree_setCo ..) (resume_waits h.waits queued)
  | resumeEarly j a rest shared queued suspending =>
      exact h.behind_co (sameTree_setCo ..) (resume_waits h.waits queued)
  | lateCheck j a left => exact h.behind_co (sameTree_setCo ..) (rests_waits h.waits)
  | lateRemove j a left =>
      rw [setCo_late (htimely a)]
      exact h.behind_co (sameTree_setCo ..) (rests_waits h.waits)

theorem books_of_runs (h : Runs build Timely s) : Books s :=
  h.holds (fun hs => hs ▸ books_new) fun _ ih hstep meets => step_books ih meets hstep

/-! ## Where a join ends -/

theorem fireAll_pc (s : State) (a : Await) (j : Nat) : ((s.fireAll a).co j).pc = (s.co j).pc := by
  unfold State.fireAll
  dsimp only
  split
  · rfl
  · rfl

theorem advance_pc (s : State) (n j : Nat) : ((s.advance n).co j).pc = (s.co j).pc := by
  unfold State.advance
  cases s.phase n with
  | absent | scope | completed | running | stored | done => rfl
  | retaining cur => cases cur <;> rfl
  | wakingDone => exact fireAll_pc ..
  | dropping cur => cases cur <;> rfl
  | draining m => rfl
  | waking m =>
      by_cases hzero : s.live m = 0
      · dsimp only
        rw [if_pos hzero]
        exact fireAll_pc ..
      · dsimp only
        rw [if_neg hzero]
        rfl

def Ends (s : State) (j : Nat) (a : Await) : Prop :=
  ((s.co j).pc = .ready a ∧ s.ready a = true) ∨ (s.co j).due a

theorem ends_of_setCo {c : Coroutine} {j' : Nat}
    (hkept : (s.co j).pc.await = some a → c.pc.await ≠ some a → Ends s j a)
    (hj : (s.co j').pc.await = some a) (hleft : ((s.setCo j c).co j').pc.await ≠ some a) :
    Ends s j' a := by
  by_cases hjj : j' = j
  · subst hjj
    rw [show (s.setCo j' c).co j' = c from Function.update_self ..] at hleft
    exact hkept hj hleft
  · rw [show (s.setCo j c).co j' = s.co j' from Function.update_of_ne hjj ..] at hleft
    exact absurd hj hleft

theorem suspend_ends {j' : Nat} (hj : (s.co j').pc.await = some a)
    (hleft : ((s.suspend j).co j').pc.await ≠ some a) : Ends s j' a := by
  unfold State.suspend at hleft
  cases hpc : (s.co j).pc with
  | away =>
      rw [hpc] at hleft
      exact absurd hj hleft
  | parked b =>
      rw [hpc] at hleft
      exact absurd hj hleft
  | ready b =>
      rw [hpc] at hleft
      refine ends_of_setCo (fun hawait hout => ?_) hj hleft
      rw [hpc] at hawait
      obtain rfl := Option.some.inj hawait
      cases hready : s.ready b with
      | true => exact .inl ⟨hpc, hready⟩
      | false =>
          rw [hready] at hout
          exact absurd rfl hout
  | push b =>
      rw [hpc] at hleft
      refine ends_of_setCo (s := s.setWaiters b _) (fun hawait hout => ?_) hj hleft
      have hsame : (s.co j).pc.await = some b := by rw [hpc]; rfl
      exact absurd (hsame.symm.trans hawait) hout
  | check b =>
      rw [hpc] at hleft
      refine ends_of_setCo (fun hawait hout => ?_) hj hleft
      rw [hpc] at hawait
      obtain rfl := Option.some.inj hawait
      cases hready : s.ready b with
      | true =>
          rw [hready] at hout
          exact absurd rfl hout
      | false =>
          rw [hready] at hout
          exact absurd rfl hout
  | remove b =>
      rw [hpc] at hleft
      have hnode : (s.co j).pc.node = some b := by rw [hpc]; rfl
      refine ends_of_setCo (s := s.setWaiters b _) (fun hawait _ => ?_) hj hleft
      obtain rfl := Option.some.inj ((node_await hnode).symm.trans hawait)
      exact .inr ⟨hnode, .inr hpc⟩

theorem step_ends (htimely : Timely s e) (hstep : Step build s e s')
    (hj : (s.co j).pc.await = some a) (hleft : (s'.co j).pc.await ≠ some a) : Ends s j a := by
  cases hstep with
  | newScope p hp => exact absurd hj hleft
  | spawn p hp => exact absurd hj hleft
  | advance n =>
      have hsame : ((s.advance n).observe.co j).pc = (s.co j).pc := advance_pc s n j
      rw [hsame] at hleft
      exact absurd hj hleft
  | call j' b away =>
      refine ends_of_setCo (fun hawait _ => ?_) hj hleft
      rw [away] at hawait
      cases hawait
  | suspend j' => exact suspend_ends hj hleft
  | resume j' b parked queued =>
      refine ends_of_setCo (fun hawait _ => .inr ⟨?_, .inl (by omega)⟩) hj hleft
      rw [parked] at hawait ⊢
      exact hawait
  | resumeEarly j' b rest shared queued suspending =>
      refine ends_of_setCo (fun hawait _ => .inr ⟨?_, .inl (by omega)⟩) hj hleft
      rcases suspending with ⟨hpc, -⟩ | ⟨hpc, -⟩
      · rw [hpc] at hawait ⊢
        exact hawait
      · rw [hpc] at hawait ⊢
        exact hawait
  | lateCheck j' b left =>
      refine ends_of_setCo (s := s) (j := j') (fun hawait hout => ?_) hj hleft
      exact absurd hawait hout
  | lateRemove j' b left =>
      rw [setCo_late (htimely b)] at hleft
      refine ends_of_setCo (s := s) (j := j') (fun hawait hout => ?_) hj hleft
      exact absurd hawait hout

/-- Nobody looks into a list when no spawn and no completion is in progress. -/
theorem Settled.not_wakes (h : Settled s) : ¬Wakes n (s.phase n) a := by
  rcases h n with hp | hp | hp | hp
  all_goals
    rw [hp]
    cases a <;> exact id

theorem Books.not_ready (h : Books s) (hidle : Idle s) (hparked : (s.co j).pc = .parked a) :
    s.ready a = false := by
  cases hready : s.ready a with
  | false => rfl
  | true =>
      obtain ⟨n, hn⟩ := h.waits.awake j a hparked (hidle.unqueued j) hready
      exact absurd hn hidle.settled.not_wakes

theorem Settled.counts_iff (h : Settled s) : Counts s n m ↔ s.phase n = .running ∧
    Above s.parent m n := by
  unfold Counts
  rcases h n with hp | hp | hp | hp
  all_goals
    rw [hp]
    simp

open Classical in
theorem Books.counted_settled (h : Books s) (hsettled : Settled s) (m : Nat) :
    ∃ tasks : Finset Nat,
      (∀ n, n ∈ tasks ↔ s.phase n = .running ∧ Above s.parent m n) ∧ s.live m = tasks.card := by
  obtain ⟨tasks, hmem, hcard⟩ := h.counted m
  refine ⟨tasks, fun n => ?_, hcard.symm⟩
  rw [hmem, decide_eq_true_iff, hsettled.counts_iff]

end Books

/-! ## With `UVENT_ENABLE_REUSEADDR` -/

section Reuseaddr

variable {s s' : State} {e : Event} {j n : Nat} {a : Await}

theorem fireAll_rests (s : State) (a : Await) (j : Nat) :
    ((s.fireAll a).co j).rests = (s.co j).rests := by
  unfold State.fireAll
  dsimp only
  split
  · rfl
  · rfl

theorem advance_rests (s : State) (n j : Nat) :
    ((s.advance n).co j).rests = (s.co j).rests := by
  unfold State.advance
  cases s.phase n with
  | absent | scope | completed | running | stored | done => rfl
  | retaining cur => cases cur <;> rfl
  | wakingDone => exact fireAll_rests ..
  | dropping cur => cases cur <;> rfl
  | draining m => rfl
  | waking m =>
      by_cases hzero : s.live m = 0
      · dsimp only
        rw [if_pos hzero]
        exact fireAll_rests ..
      · dsimp only
        rw [if_neg hzero]
        rfl

theorem setCo_rests {c : Coroutine} (hrests : ∀ j', (s.co j').rests = []) (hc : c.rests = [])
    (j' : Nat) : ((s.setCo j c).co j').rests = [] := by
  by_cases hj : j' = j
  · subst hj
    rw [show (s.setCo j' c).co j' = c from Function.update_self ..]
    exact hc
  · rw [show (s.setCo j c).co j' = s.co j' from Function.update_of_ne hj ..]
    exact hrests j'

theorem suspend_rests (hrests : ∀ j', (s.co j').rests = []) (j' : Nat) :
    ((s.suspend j).co j').rests = [] := by
  unfold State.suspend
  cases (s.co j).pc with
  | away | parked => exact hrests j'
  | ready a =>
      refine setCo_rests hrests ?_ j'
      exact hrests j
  | check a =>
      refine setCo_rests hrests ?_ j'
      exact hrests j
  | push a =>
      refine setCo_rests (s := s.setWaiters a _) hrests ?_ j'
      exact hrests j
  | remove a =>
      refine setCo_rests (s := s.setWaiters a _) hrests ?_ j'
      exact hrests j

/-- A coroutine is taken up behind its `await_suspend`, of which nothing is left. -/
theorem step_rests (hrests : ∀ j, (s.co j).rests = []) (hstep : Step .reuseaddr s e s') :
    Timely s e ∧ ∀ j, (s'.co j).rests = [] := by
  have hnone : ∀ {j : Nat} {rest : Rest}, rest ∉ (s.co j).rests := by
    intro j rest hin
    rw [hrests j] at hin
    cases hin
  cases hstep with
  | newScope p hp => exact ⟨trivial, hrests⟩
  | spawn p hp => exact ⟨trivial, hrests⟩
  | advance n => exact ⟨trivial, fun j => (advance_rests s n j).trans (hrests j)⟩
  | call j a away => exact ⟨trivial, setCo_rests hrests (hrests j)⟩
  | suspend j => exact ⟨trivial, suspend_rests hrests⟩
  | resume j a parked queued => exact ⟨trivial, setCo_rests hrests (hrests j)⟩
  | resumeEarly j a rest shared => cases shared
  | lateCheck j a left => exact absurd left hnone
  | lateRemove j a left => exact absurd left hnone

theorem timelyRuns_of_reuseaddr {ok : State → Event → Prop} (h : Runs .reuseaddr ok s) :
    Runs .reuseaddr Timely s ∧ ∀ j, (s.co j).rests = [] := by
  refine h.holds (fun hs => ⟨.start hs, fun _ => by rw [hs]; rfl⟩) fun _ ih hstep _ => ?_
  obtain ⟨htimely, hrests⟩ := step_rests ih.2 hstep
  exact ⟨ih.1.step hstep htimely, hrests⟩

end Reuseaddr

/-! ## The joins -/

/-- In a run in which no late rest finds a node, the counters are exact, a join ends behind
what it waits for, and no join is left behind. -/
theorem joined_of_timelyRuns (build : Build) (s : State) (h : Runs build Timely s) :
    Joined build s := by
  have hbooks := books_of_runs h
  refine ⟨fun hsettled m => hbooks.counted_settled hsettled m, ?_, ?_, ?_, ?_⟩
  · intro e s' htimely hstep j m hj hleft
    rcases step_ends htimely hstep hj hleft with ⟨hpc, hready⟩ | hdue
    · exact hbooks.seen j m (by rw [hpc]; rfl) (of_decide_eq_true hready)
    · exact hbooks.waits.zeroed j m hdue
  · intro e s' htimely hstep j n hj hleft
    rcases step_ends htimely hstep hj hleft with ⟨-, hready⟩ | hdue
    · exact hbooks.waits.kept n (.inl hready)
    · exact hbooks.waits.kept n (.inl (hbooks.waits.told j n hdue))
  · intro hidle j m hparked hzero
    have hready : s.ready (.scope m) = true := decide_eq_true hzero
    rw [hbooks.not_ready hidle hparked] at hready
    cases hready
  · intro hidle j n hparked
    exact hbooks.not_ready hidle hparked

/-- A task runs in a scope, and a coroutine is suspended in the join of it. -/
theorem suspended_joined : ∃ s, (s.co 0).pc = .parked (.scope 0) ∧ s.live 0 = 1 ∧
    Joined .reuseaddr s := by
  have h₁ : Runs .reuseaddr Timely .new := .start rfl
  have h₂ := h₁.step (.newScope none nofun)
  have h₃ := h₂.step (.spawn (some 0) (by rintro q ⟨⟩; exact Phase.noConfusion))
  have h₄ := h₃.step (.advance 1)
  have h₅ := h₄.step (.advance 1)
  have h₆ := h₅.step (.advance 1)
  have h₇ := h₆.step (.call 0 (.scope 0) rfl)
  have h₈ := h₇.step (.suspend 0)
  have h₉ := h₈.step (.suspend 0)
  have hlast := h₉.step (.suspend 0)
  exact ⟨_, by decide, by decide, joined_of_timelyRuns _ _ hlast⟩

/-- The first join is woken before its `await_suspend` is over, and what is left of that ends
the second one, whose task is running. -/
theorem joined_not_drained : ∃ s e s', Runs .shared (fun _ _ => True) s ∧ Step .shared s e s' ∧
    (s.co 0).pc.await = some (.scope 0) ∧ (s'.co 0).pc.await ≠ some (.scope 0) ∧
    (s.co 0).zeroed = false := by
  have h₁ : Runs .shared (fun _ _ => True) .new := .start rfl
  have h₂ := h₁.step (.newScope none nofun)
  have h₃ := h₂.step (.spawn (some 0) (by rintro q ⟨⟩; exact Phase.noConfusion))
  have h₄ := ((h₃.step (.advance 1)).step (.advance 1)).step (.advance 1)
  have h₅ := h₄.step (.call 0 (.scope 0) rfl)
  have h₆ := (h₅.step (.suspend 0)).step (.suspend 0)
  -- the task completes, and fires the coroutine
  have h₇ := ((h₆.step (.advance 1)).step (.advance 1)).step (.advance 1)
  have h₈ := ((h₇.step (.advance 1)).step (.advance 1)).step (.advance 1)
  have h₉ := (h₈.step (.advance 1)).step (.advance 1)
  have h₁₀ := h₉.step
    (.resumeEarly 0 (.scope 0) (.check (.scope 0)) rfl (by decide) (.inl ⟨by decide, rfl⟩))
  have h₁₁ := h₁₀.step (.lateCheck 0 (.scope 0) (by decide))
  -- the coroutine spawns a task, and joins it
  have h₁₂ := h₁₁.step (.spawn (some 0) (by rintro q ⟨⟩; exact Phase.noConfusion))
  have h₁₃ := ((h₁₂.step (.advance 2)).step (.advance 2)).step (.advance 2)
  have h₁₄ := h₁₃.step (.call 0 (.scope 0) (by decide))
  have h₁₅ := ((h₁₄.step (.suspend 0)).step (.suspend 0)).step (.suspend 0)
  exact ⟨_, _, _, h₁₅, .lateRemove 0 (.scope 0) (by decide), by decide, by decide, by decide⟩

end Uvent.Tasks.Joins
