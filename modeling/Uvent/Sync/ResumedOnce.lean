import Uvent.Sync.ArmedWaits
import Uvent.Sync.MutexResumption

/-!
# Every suspension is resumed once

What the invariants of the coroutines and the lists say when the awaiters have returned and
while a coroutine waits; the awaiter of the mutex follows.
-/

namespace Uvent.Sync.Suspension

variable {Λ : Type}

section States

variable {s : State Λ} {t : Nat}

variable [DecidableEq Λ]

def Coro.Continued (c : Coro Λ) (n : Nat) : Prop :=
  n < c.turn ∨ n = c.turn ∧ ∀ w, c.phase ≠ .suspended w

omit [DecidableEq Λ] in
/-- A suspension that is over, or not begun, or not decided. -/
theorem Coro.Ok.cases {c : Coro Λ} {link : Nat → Λ → Prop} (h : c.Ok link) {n : Nat} (hn : 0 < n) :
    c.Done n ∨ c.verdict n = none ∧ c.wakes n ≤ 1 ∨
      n = c.turn ∧ c.verdict n = some true ∧ c.Open link ∧ c.phase.kind = .parked := by
  rcases Nat.lt_trichotomy n c.turn with hlt | rfl | hlt
  · exact .inl (h.past n hn hlt)
  · have hopen : c.Open link → c.wakes c.turn ≤ 1 := by
      intro ho
      obtain ⟨who, haccount, -⟩ := ho.account
      rcases Nat.eq_zero_or_pos (c.wakes c.turn) with hzero | hpos
      · omega
      · exact Nat.le_of_eq (haccount.wakes_eq hpos).1
    have hnow := h.now
    generalize hkind : c.phase.kind = kind at hnow
    cases kind with
    | out => exact .inl (hnow.2.resolve_left (by omega))
    | fresh => exact .inr (.inl ⟨hnow.2.2.2, by rw [hnow.2.2.1]; exact Nat.zero_le 1⟩)
    | opening => exact .inr (.inl ⟨hnow.2.2.2.1, hopen hnow.1⟩)
    | revoking => exact .inr (.inl ⟨hnow.2, hopen hnow.1⟩)
    | parked => exact .inr (.inr ⟨rfl, hnow.2, hnow.1, rfl⟩)
    | givingUp => exact .inr (.inl ⟨hnow.2.2.2, by rw [hnow.2.2.1]; exact Nat.zero_le 1⟩)
    | leaving => exact .inl hnow.2.1
  · obtain ⟨hverdict, hwakes⟩ := h.future n hlt
    exact .inr (.inl ⟨hverdict, by rw [hwakes]; exact Nat.zero_le 1⟩)

omit [DecidableEq Λ] in
theorem Phase.suspended_of_kind {p : Phase Λ} (h : p.kind = .parked) : ∃ w, p = .suspended w := by
  match p with
  | .suspended w => exact ⟨w, rfl⟩
  | .detach _ why _ _ => cases why <;> cases h

structure ResumedOnce (s : State Λ) : Prop where
  /-- `await_suspend` has returned false: the handle is never put into a run queue. -/
  refused : ∀ t n, 0 < n → (s.coros t).verdict n = some false →
    ∀ s', Relation.ReflTransGen (Step true) s s' → (s'.coros t).wakes n = 0
  once : ∀ t n, 0 < n → (s.coros t).wakes n ≤ 1
  returned : ∀ t n, 0 < n → n < (s.coros t).turn → (s.coros t).verdict n ≠ none
  continued : ∀ t n, 0 < n → (s.coros t).verdict n = some true → (s.coros t).Continued n →
    (s.coros t).wakes n = 1
  /-- Suspended, and nobody has won: the nodes are in the lists, the timers armed and the hook
  in place. -/
  waiting : ∀ t w, (s.coros t).phase = .suspended w → (s.coros t).winner = .none →
    (s.coros t).hookPc = .idle → s.Awaits t w
  /-- A waker puts the handle of every node that it pops and nobody has won into a run queue. -/
  wakes : ∀ l count, ∃ popped fired, s.Roused l popped fired (s.wake l count) ∧
    (fired.length = count ∨ fired.length < count ∧ (s.wake l count).lists l = [])
  /-- So does `on_fire` that nobody has forestalled. -/
  fires : ∀ t k, (s.coros t).phase.place k = some .sleep → (s.coros t).winner = .none →
    ((s.coros t).sleepers k).Live (s.coros t).turn →
    (((fun s : State Λ => s.onFire t k)^[4] s).coros t).FiredBy k
  /-- `on_cancel` that nobody has forestalled is about to. -/
  kicks : ∀ t w, (s.coros t).hook = some w → (s.coros t).winner = .none →
    (s.coros t).hookPc = .idle → ((s.onCancel t w).coros t).hookPc ≠ .idle
  /-- Whoever has won puts the handle there. -/
  owed : ∀ t w, (s.coros t).phase = .suspended w →
    (s.coros t).winner ≠ .none ∨ (s.coros t).hookPc ≠ .idle →
    ∃ s', Relation.ReflTransGen (Step true) s s' ∧ (s'.coros t).phase = .suspended w ∧
      (s'.coros t).turn = (s.coros t).turn ∧ (s'.coros t).wakes (s.coros t).turn = 1
  /-- Whoever has won has put the handle into a run queue, or is about to. -/
  won : ∀ t w, (s.coros t).phase = .suspended w → (s.coros t).winner ≠ .none →
    (s.coros t).hookPc = .idle → (∀ k n, ((s.coros t).sleepers k).timer ≠ .enqueue n) →
    (s.coros t).wakes (s.coros t).turn = 1
  /-- A coroutine that has continued has no node anywhere. -/
  unlinked : ∀ t, (s.coros t).phase = .running → (s.coros t).queued = 0 ∧
    (∀ l n, n ∈ s.lists l → n.coro ≠ t) ∧ ∀ k, ((s.coros t).sleepers k).waiter = none ∧
      ∀ n, ((s.coros t).sleepers k).timer ≠ .claim n ∧ ((s.coros t).sleepers k).timer ≠ .enqueue n

theorem Inv.resumedOnce (h : Inv s) (harmed : ∀ t, (s.coros t).Armed) : ResumedOnce s := by
  constructor
  case refused =>
    intro t n hn hverdict s' hsteps
    obtain ⟨hinv, hkeeps⟩ := inv_of_steps h hsteps
    have hverdict' := (hkeeps t).verdict n false hverdict
    obtain hdone | ⟨hnone, -⟩ | ⟨-, htrue, -⟩ := (hinv.coros t).cases hn
    · obtain ⟨-, hwakes⟩ | ⟨htrue, -⟩ := hdone
      · exact hwakes
      · rw [hverdict'] at htrue
        cases htrue
    · rw [hverdict'] at hnone
      cases hnone
    · rw [hverdict'] at htrue
      cases htrue
  case once =>
    intro t n hn
    obtain hdone | ⟨-, hwakes⟩ | ⟨rfl, -, hopen, -⟩ := (h.coros t).cases hn
    · obtain ⟨-, hwakes⟩ | ⟨-, hwakes⟩ := hdone <;> omega
    · exact hwakes
    · obtain ⟨who, haccount, -⟩ := hopen.account
      rcases Nat.eq_zero_or_pos ((s.coros t).wakes (s.coros t).turn) with hzero | hpos
      · omega
      · exact Nat.le_of_eq (haccount.wakes_eq hpos).1
  case returned =>
    intro t n hn hlt
    obtain ⟨hverdict, -⟩ | ⟨hverdict, -⟩ := (h.coros t).past n hn hlt <;> simp [hverdict]
  case continued =>
    intro t n hn hverdict hcontinued
    obtain hdone | ⟨hnone, -⟩ | ⟨rfl, -, -, hkind⟩ := (h.coros t).cases hn
    · obtain ⟨hfalse, -⟩ | ⟨-, hwakes⟩ := hdone
      · rw [hverdict] at hfalse
        cases hfalse
      · exact hwakes
    · rw [hverdict] at hnone
      cases hnone
    · obtain ⟨w, hw⟩ := Phase.suspended_of_kind hkind
      obtain hlt | ⟨-, hnot⟩ := hcontinued
      · exact absurd hlt (Nat.lt_irrefl _)
      · exact absurd hw (hnot w)
  case waiting => exact fun t w hphase hw hidle => h.awaits (harmed t) hphase hw hidle
  case wakes => exact fun l count => h.roused_of_wake l count
  case fires => exact fun t k hplace hw hlive => h.firedBy hplace hw hlive
  case kicks => exact fun t w hhook hw hidle => h.kicks hhook hw hidle
  case owed => exact fun t w hphase hwon => h.owed hphase hwon
  case won =>
    intro t w hphase hwinner hpc htimers
    obtain ⟨hopen, -⟩ := (h.coros t).at_kind (show _ = Kind.parked by rw [hphase]; rfl)
    obtain ⟨who, haccount, hwho⟩ := hopen.account
    generalize (s.coros t).wakes (s.coros t).turn = wakes at haccount ⊢
    generalize (s.coros t).winner = winner at haccount hwinner
    generalize (s.coros t).hookPc = pc at haccount hpc
    cases haccount with
    | quiet | removed => exact absurd rfl hwinner
    | firing k =>
      obtain ⟨n, hn⟩ := (hwho k).mpr rfl
      exact absurd hn (htimers k n)
    | fired => rfl
    | cancelling => cases hpc
    | kicked => rfl
  case unlinked =>
    intro t hphase
    have hok := h.coros t
    have hplace : ∀ j, (s.coros t).phase.place j = none := fun j => by rw [hphase]; rfl
    obtain ⟨hshut, -⟩ := hok.at_kind (show _ = Kind.out by rw [hphase]; rfl)
    refine ⟨hshut.queued, fun l n hmem hcoro => ?_, fun k => ?_⟩
    · subst hcoro
      refine hok.unlinked hplace n.index l ?_
      rw [State.Link, State.node, ← h.turns l n hmem]
      exact hmem
    · obtain ⟨hwaiter, hclaim, henqueue⟩ := (hok.sleeps k).idle (by simp [hplace k])
      exact ⟨hwaiter, fun n => ⟨hclaim n, henqueue n⟩⟩

/-- With `UVENT_ENABLE_REUSEADDR` every `await_suspend` of the awaiters returns false and
its handle is never put into a run queue, or returns true and the handle is put there
once: until then wakers, timers and cancellation find the coroutine, and whoever finds it
puts the handle there.  A coroutine that has continued is in no list. -/
theorem resumedOnce_of_runs {m : Mutex.AsyncMutex} {wakes : Nat → Nat} (h : Runs true s)
    (hm : Mutex.Counted true m wakes) : ResumedOnce s ∧ Mutex.ResumedOnce m wakes :=
  ⟨(inv_of_runs h).resumedOnce (armed_of_runs h), Mutex.resumedOnce_of_counted hm⟩

end States

/-- A waiter that was woken and goes on while another coroutine waits for the list and a
timer; a call of `lock` that was handed the lock, and one that waits. -/
theorem woken_once : ∃ (s : State Unit) (m : Mutex.AsyncMutex) (wakes : Nat → Nat),
    Runs true s ∧ Mutex.Counted true m wakes ∧ ((s.coros 0).wakes 1 = 1 ∧ wakes 1 = 1) ∧
      ((s.coros 1).phase = .suspended (.select [.listed (), .sleep]) ∧
        (s.coros 1).winner = .none ∧ ((s.wake () 1).coros 1).wakes 1 = 1) ∧
      ((m.calls 2).pc = .suspended ∧ m.waiters = [2]) ∧
      ResumedOnce s ∧ Mutex.ResumedOnce m wakes := by
  have h₀ : Runs true (.new : State Unit) := .start
  have h₁ := h₀.step (.start 0 (.op ()) rfl)
  have h₂ := h₁.step (.check 0 (.op ()) rfl)
  have h₃ := h₂.step (.attach 0 (.op ()) 0 rfl)
  have h₄ := h₃.step (.look 0 (.op ()) 0 true rfl nofun)
  have h₅ := h₄.step (.arm 0 (.op ()) rfl)
  have h₆ := h₅.step (.start 1 (.select [.listed (), .sleep]) rfl)
  have h₇ := h₆.step (.check 1 _ rfl)
  have h₈ := h₇.step (.attach 1 _ 0 rfl)
  have h₉ := h₈.step (.look 1 _ 0 true rfl nofun)
  have h₁₀ := h₉.step (.attach 1 _ 1 rfl)
  have h₁₁ := h₁₀.step (.startTimer 1 _ 1 rfl)
  have h₁₂ := h₁₁.step (.look 1 _ 1 true rfl fun _ => rfl)
  have h₁₃ := h₁₂.step (.arm 1 _ rfl)
  have h₁₄ := h₁₃.step (.wake () 1)
  have h₁₅ := h₁₄.step (.resume 0 (.op ()) rfl Nat.one_pos)
  have h₁₆ := h₁₅.step (.resumed 0 () rfl)
  have m₀ : Mutex.Counted true .new fun _ => 0 := .start
  have m₁ := m₀.step (.callLock 0 rfl)
  have m₂ := m₁.step (.awaitReady 0 rfl)
  have m₃ := m₂.step (.proceed 0 rfl)
  have m₄ := m₃.step (.callLock 1 rfl)
  have m₅ := m₄.step (.awaitReady 1 rfl)
  have m₆ := m₅.step (.checkCancel 1 rfl)
  have m₇ := m₆.step (.lockSection 1 rfl)
  have m₈ := m₇.step (.armCancel 1 rfl)
  have m₉ := m₈.step (.callLock 2 rfl)
  have m₁₀ := m₉.step (.awaitReady 2 rfl)
  have m₁₁ := m₁₀.step (.checkCancel 2 rfl)
  have m₁₂ := m₁₁.step (.lockSection 2 rfl)
  have m₁₃ := m₁₂.step (.armCancel 2 rfl)
  have m₁₄ := m₁₃.step (.unlock 0 rfl)
  have m₁₅ := m₁₄.step (.unlockSection 0 rfl)
  have m₁₆ := m₁₅.step (.resumeOn 1 (.head _))
  obtain ⟨hs, hm⟩ := resumedOnce_of_runs h₁₆ m₁₆
  exact ⟨_, _, _, h₁₆, m₁₆, ⟨rfl, rfl⟩, ⟨rfl, rfl, rfl⟩, ⟨rfl, rfl⟩, hs, hm⟩

end Uvent.Sync.Suspension
