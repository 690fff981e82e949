import Uvent.Tasks.TreeLedger

/-!
# Nodes and their holders

The books are right in every state of a run, so that a node is deleted once, by whoever drops
the last reference, and no kick is lost or released twice.
-/

namespace Uvent.Tasks.CancelTree

open Uvent.Lib Uvent.Sync
open Uvent.Net.StateWord (Build)

variable {build : Build} {s s' : State} {t n : Nat}

theorem ledger_new : Ledger .new := by
  refine ⟨⟨?_, ?_, ?_, ?_, ?_, fun _ _ => ⟨rfl, rfl, rfl⟩⟩, ?_, fun _ _ => rfl, ?_, ?_, ?_, ?_⟩
  · intro t c pc hpc
    cases hpc
  · intro t t' c pc pc' hpc
    cases hpc
  · intro t c pc hpc
    cases hpc
  · intro t c pc hpc
    cases hpc
  · intro t c pc hpc
    cases hpc
  · refine refCounted_zero (fun h => ?_) fun _ => rfl
    cases h <;> rfl
  · refine refCounted_zero (fun h => ?_) fun _ => rfl
    cases h <;> rfl
  · intro w
    exact List.nodup_nil
  · exact ⟨fun _ => 0, refCounted_zero (fun _ => rfl) fun _ => rfl, fun _ => rfl⟩
  · refine ⟨fun _ => 0, refCounted_zero (fun h => ?_) fun _ => rfl, fun _ => rfl⟩
    cases h <;> rfl

/-- The calls of `request_cancel` that have no reference in hand. -/
structure Thread.Light (th : Thread) : Prop where
  hand : th.hand = none
  kicking : th.kicking = none
  unkicking : th.unkicking = none
  burying : th.burying = none
  making : ∀ c pc, th ≠ .making c pc

theorem Ledger.lightly {x : State} {th old : Thread} (h : Ledger s) (pc : s.threads t = old)
    (hold : old.Light) (hx : SameBooks s x) (hth : th.Light) : Ledger (x.goto t th) :=
  h.pass pc hx
    ⟨hth.hand.trans hold.hand.symm, hth.kicking.trans hold.kicking.symm,
      hth.unkicking.trans hold.unkicking.symm, hth.burying.trans hold.burying.symm⟩
    (fun c pc heq => absurd heq (hth.making c pc))

theorem light_idle : Thread.Light .idle := ⟨rfl, rfl, rfl, rfl, by simp⟩

theorem ret_cases (s : State) (t : Nat) (below : List Frame) :
    ∃ th, s.ret t below = s.goto t th ∧ th.Light := by
  unfold State.ret
  split
  · exact ⟨_, rfl, rfl, rfl, rfl, rfl, by simp⟩
  · exact ⟨_, rfl, light_idle⟩

theorem ret_ledger {x : State} {old : Thread} {below : List Frame} (h : Ledger s)
    (pc : s.threads t = old) (hold : old.Light) (hx : SameBooks s x) : Ledger (x.ret t below) := by
  obtain ⟨th, hret, hth⟩ := ret_cases x t below
  rw [hret]
  exact h.lightly pc hold hx hth

theorem sameBooks_refl (s : State) : SameBooks s s :=
  ⟨rfl, rfl, rfl, rfl, rfl, rfl, rfl, rfl, rfl, rfl, rfl, rfl⟩

theorem sameBooks_runCancelHook (s : State) (j : Nat) : SameBooks s (s.runCancelHook j) := by
  unfold State.runCancelHook
  split
  · exact ⟨rfl, rfl, rfl, rfl, rfl, rfl, rfl, rfl, rfl, rfl, rfl, rfl⟩
  · exact sameBooks_refl s

theorem sameBooks_suspend (s : State) (j : Nat) (cancelled : Bool) :
    SameBooks s (s.suspend j cancelled) := by
  unfold State.suspend
  cases (s.awaiter j).pc with
  | unused | parked | ended => exact sameBooks_refl s
  | ready | begin | push | check | arm | undo | withdraw =>
      exact ⟨rfl, rfl, rfl, rfl, rfl, rfl, rfl, rfl, rfl, rfl, rfl, rfl⟩

theorem step_ledger (h : Ledger s) (hstep : Step build s s') : Ledger s' := by
  cases hstep with
  | make t p task pc known => exact make_ledger h pc task _
  | retain t c p pc held => exact retain_ledger h pc held
  | link t c p pc free =>
      refine h.pass pc ⟨rfl, rfl, rfl, rfl, rfl, rfl, rfl, rfl, rfl, rfl, rfl, rfl⟩
        ⟨rfl, rfl, rfl, rfl⟩ fun c' pc' heq => ?_
      obtain ⟨rfl, rfl⟩ := Thread.making.inj heq
      refine ⟨_, rfl, ?_⟩
      unfold State.behindLink
      split
      · exact Nat.le_succ _
      · exact Nat.le_of_ble_eq_true rfl
  | run t c pc => exact run_ledger h pc
  | register t c pc => exact register_ledger h pc
  | unregistered t c pc =>
      refine h.pass pc (sameBooks_refl s) ⟨rfl, rfl, rfl, rfl⟩ fun c' pc' heq => ?_
      obtain ⟨rfl, rfl⟩ := Thread.making.inj heq
      exact ⟨_, rfl, Nat.le_succ _⟩
  | spawn t c pc =>
      refine h.pass pc (sameBooks_refl s) ⟨rfl, rfl, rfl, rfl⟩ fun c' pc' heq => ?_
      obtain ⟨rfl, rfl⟩ := Thread.making.inj heq
      exact ⟨_, rfl, Nat.le_succ _⟩
  | give t c i pc unused => exact give_ledger h pc unused
  | copy i n unused held => exact copy_ledger h unused held
  | detach t i n pc points => exact detach_ledger h pc points
  | complete t n pc running spawned => exact complete_ledger h pc running
  | sweep t n pc entry done => exact unregister_ledger h pc entry
  | unregister t n pc entry => exact unregister_ledger h pc entry
  | drop t n kick pc => exact drop_ledger h pc
  | unlinkRoot t n pc root =>
      exact h.pass pc (sameBooks_refl s) ⟨rfl, rfl, rfl, rfl⟩ (by simp)
  | unlink t n p pc up free =>
      exact h.pass pc ⟨rfl, rfl, rfl, rfl, rfl, rfl, rfl, rfl, rfl, rfl, rfl, rfl⟩
        ⟨rfl, rfl, rfl, rfl⟩ (by simp)
  | free t n pc => exact free_ledger h pc
  | request t n pc held =>
      exact h.lightly pc light_idle ⟨rfl, rfl, rfl, rfl, rfl, rfl, rfl, rfl, rfl, rfl, rfl, rfl⟩
        ⟨rfl, rfl, rfl, rfl, by simp⟩
  | exchange t n below pc =>
      have hold : Thread.Light (.cancelling (⟨n, .exchange⟩ :: below)) :=
        ⟨rfl, rfl, rfl, rfl, by simp⟩
      split
      · exact ret_ledger h pc hold (sameBooks_refl s)
      · exact h.lightly pc hold
          ⟨rfl, rfl, rfl, rfl, rfl, rfl, rfl, rfl, rfl, rfl, rfl, rfl⟩ ⟨rfl, rfl, rfl, rfl, by simp⟩
  | wakeCheck t n below pc =>
      refine h.pass pc (sameBooks_refl s) ?_ (by simp)
      split <;> exact ⟨rfl, rfl, rfl, rfl⟩
  | wakeAll t n below pc =>
      exact h.pass pc ⟨rfl, rfl, rfl, rfl, rfl, rfl, rfl, rfl, rfl, rfl, rfl, rfl⟩
        ⟨rfl, rfl, rfl, rfl⟩ (by simp)
  | kickSkip t n below pc => exact h.pass pc (sameBooks_refl s) ⟨rfl, rfl, rfl, rfl⟩ (by simp)
  | kickLoad t n w below pc task reuseaddr =>
      exact h.pass pc (sameBooks_refl s) ⟨rfl, rfl, rfl, rfl⟩ (by simp)
  | kickFlag t n w below pc => exact kickFlag_ledger h pc
  | kickTake t n w below pc alive => exact kickTake_ledger h pc alive
  | kickMiss t n w below pc dead =>
      exact h.pass pc (sameBooks_refl s) ⟨rfl, rfl, rfl, rfl⟩ (by simp)
  | kickReset t n below pc => exact h.reset pc rfl rfl rfl rfl rfl (by simp)
  | kickPush t n w below pc => exact kickPush_ledger h pc
  | lock t n below pc free =>
      exact h.pass pc ⟨rfl, rfl, rfl, rfl, rfl, rfl, rfl, rfl, rfl, rfl, rfl, rfl⟩
        ⟨rfl, rfl, rfl, rfl⟩ (by simp)
  | visit t n c below pc => exact h.pass pc (sameBooks_refl s) ⟨rfl, rfl, rfl, rfl⟩ (by simp)
  | unlock t n below pc =>
      exact ret_ledger h pc ⟨rfl, rfl, rfl, rfl, by simp⟩
        ⟨rfl, rfl, rfl, rfl, rfl, rfl, rfl, rfl, rfl, rfl, rfl, rfl⟩
  | popKick t w n rest pc queue => exact popKick_ledger h pc queue
  | clear t n pc => exact h.reset pc rfl rfl rfl rfl rfl (by simp)
  | hook t n j pc undone suspended =>
      exact h.pass pc (sameBooks_runCancelHook s j) ⟨rfl, rfl, rfl, rfl⟩ (by simp)
  | hookless t n pc => exact h.pass pc (sameBooks_refl s) ⟨rfl, rfl, rfl, rfl⟩ (by simp)
  | onCancel j n unused held =>
      exact h.of_same ⟨rfl, rfl, rfl, rfl, rfl, rfl, rfl, rfl, rfl, rfl, rfl, rfl⟩
  | suspend j cancelled => exact h.of_same (sameBooks_suspend s j cancelled)
  | resume j fired once suspended =>
      exact h.of_same ⟨rfl, rfl, rfl, rfl, rfl, rfl, rfl, rfl, rfl, rfl, rfl, rfl⟩

theorem ledger_of_runs (h : Runs build s) : Ledger s := by
  induction h with
  | start => exact ledger_new
  | step _ hstep ih => exact step_ledger ih hstep

/-! ## Zero is final -/

theorem ret_refs (s : State) (t : Nat) (below : List Frame) :
    (s.ret t below).refs = s.refs ∧ (s.ret t below).enqueued = s.enqueued := by
  obtain ⟨th, hret, -⟩ := ret_cases s t below
  rw [hret]
  exact ⟨rfl, rfl⟩

/-- Nobody takes up a node without references, and nobody enqueues it. -/
theorem step_dead (h : Ledger s) (hstep : Step build s s') (hlt : n < s.next)
    (hzero : s.refs n = 0) : s'.refs n = 0 ∧ s'.enqueued n = s.enqueued n := by
  have hother : ∀ {m : Nat}, s.refs m ≠ 0 → n ≠ m := by
    rintro m hm rfl
    exact hm hzero
  have hhand : ∀ {t m : Nat}, (s.threads t).hand = some m → n ≠ m :=
    fun hm => hother (h.refs_ne (a := .thread _) hm)
  have hadd : ∀ {m : Nat}, n ≠ m → (s.addRef m).refs n = 0 :=
    fun hm => (Function.update_of_ne hm ..).trans hzero
  cases hstep with
  | make t p task pc known => exact ⟨(Function.update_of_ne hlt.ne ..).trans hzero, rfl⟩
  | retain t c p pc held => exact ⟨hadd (hother (h.held held)), rfl⟩
  | run t c pc => exact ⟨hadd (hhand (by rw [pc]; rfl)), rfl⟩
  | register t c pc => exact ⟨hadd (hhand (by rw [pc]; rfl)), rfl⟩
  | copy i m unused held => exact ⟨hadd (hother (h.held held)), rfl⟩
  | drop t m kick pc =>
      have hm : n ≠ m := hhand (by rw [pc]; rfl)
      exact ⟨(Function.update_of_ne hm ..).trans hzero, rfl⟩
  | kickTake t m w below pc alive => exact ⟨hadd (hother alive), rfl⟩
  | kickPush t m w below pc =>
      have hm : n ≠ m := hhand (by rw [pc]; rfl)
      exact ⟨hzero, Function.update_of_ne hm ..⟩
  | exchange t m below pc =>
      split
      · obtain ⟨hrefs, henqueued⟩ := ret_refs s t below
        rw [hrefs, henqueued]
        exact ⟨hzero, rfl⟩
      · exact ⟨hzero, rfl⟩
  | unlock t m below pc =>
      obtain ⟨hrefs, henqueued⟩ :=
        ret_refs { s with treeLock := Function.update s.treeLock m none } t below
      rw [hrefs, henqueued]
      exact ⟨hzero, rfl⟩
  | hook t m j pc undone suspended =>
      obtain ⟨-, hrefs, -, -, -, -, -, -, -, -, henqueued, -⟩ := sameBooks_runCancelHook s j
      show (s.runCancelHook j).refs n = 0 ∧ (s.runCancelHook j).enqueued n = s.enqueued n
      rw [hrefs, henqueued]
      exact ⟨hzero, rfl⟩
  | suspend j cancelled =>
      obtain ⟨-, hrefs, -, -, -, -, -, -, -, -, henqueued, -⟩ := sameBooks_suspend s j cancelled
      rw [hrefs, henqueued]
      exact ⟨hzero, rfl⟩
  | link | unregistered | spawn | give | detach | complete | sweep | unregister | unlinkRoot
  | unlink | free | request | wakeCheck | wakeAll | kickSkip | kickLoad | kickFlag | kickMiss
  | kickReset | lock | visit | popKick | clear | hookless | onCancel | resume =>
      exact ⟨hzero, rfl⟩

/-! ## The holders -/

/-- The references of a node are those of its holders; it is deleted once, behind the last of
them, and its kicks are neither lost nor released twice. -/
theorem owned_of_runs (build : Build) (s : State) (hruns : Runs build s) : Owned build s := by
  have h := ledger_of_runs hruns
  refine ⟨?_, ?_, ?_, ?_, ?_, ?_, ?_, ?_, ?_⟩
  · intro n
    obtain ⟨holders, hmem, hcard⟩ := h.refs n
    exact ⟨holders, fun holder => (hmem holder).trans decide_eq_true_iff, hcard.symm⟩
  · intro hquiet t n hin
    have hhand : (s.threads t).hand = some n := hin
    rw [hquiet t] at hhand
    cases hhand
  · intro n
    obtain ⟨k, -, hsum⟩ := h.buried
    have hn := hsum n
    split at hn <;> omega
  · intro n hdeleted holder hin
    rw [h.undeleted (h.refs_ne hin)] at hdeleted
    cases hdeleted
  · intro n hlt hnone
    obtain ⟨k, hk, hsum⟩ := h.buried
    have hn := hsum n
    rw [if_pos ⟨hlt, h.refs.eq_zero_iff.mpr hnone⟩] at hn
    by_cases hdying : ∃ t, (s.threads t).burying = some n
    · exact .inr hdying
    · have hzero : k n = 0 := hk.eq_zero_iff.mpr fun t ht => hdying ⟨t, ht⟩
      exact .inl (by omega)
  · exact fun s' hstep n hlt hzero => step_dead h hstep hlt hzero
  · exact fun w n hin => h.refs_ne (a := .entry w n) (if_pos hin)
  · refine fun w => ⟨h.nodup w, fun w' n hin hin' => ?_⟩
    have hentry : s.kickView Thread.kicking (.entry w n) = some n := if_pos hin
    have hentry' : s.kickView Thread.kicking (.entry w' n) = some n := if_pos hin'
    exact (Holder.entry.inj (h.pending.unique (Bool.toNat_le _) hentry hentry')).1
  · intro n
    obtain ⟨k, hk, hsum⟩ := h.unkicks
    obtain ⟨pending, hmem, hcard⟩ := hk n
    refine ⟨pending, fun holder => (hmem holder).trans decide_eq_true_iff, ?_⟩
    rw [hsum n, hcard]

/-- A task was spawned and cancelled, and its kick is in the queue of a worker. -/
theorem kicked_owned : ∃ s, s.kicks 0 = [0] ∧ s.refs 0 = 4 ∧ Owned .reuseaddr s := by
  have h₁ : Runs .reuseaddr .new := .start
  have h₂ := h₁.step (.make 0 none true rfl nofun)
  have h₃ := h₂.step (.run 0 0 rfl)
  have h₄ := h₃.step (.register 0 0 rfl)
  have h₅ := (h₄.step (.spawn 0 0 rfl)).step (.give 0 0 0 rfl rfl)
  have h₆ := h₅.step (.request 0 0 rfl (.inl ⟨0, rfl⟩))
  have h₇ := (h₆.step (.exchange 0 0 [] rfl)).step (.wakeCheck 0 0 [] rfl)
  have h₈ := (h₇.step (.kickLoad 0 0 0 [] rfl rfl rfl)).step (.kickFlag 0 0 0 [] rfl)
  have hlast := (h₈.step (.kickTake 0 0 0 [] rfl (by decide))).step (.kickPush 0 0 0 [] rfl)
  exact ⟨_, by decide, by decide, owned_of_runs _ _ hlast⟩

end Uvent.Tasks.CancelTree
