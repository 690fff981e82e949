import Uvent.Net.Conservation

/-!
# A header is freed once

The header goes to the owner's delete queue behind its teardown, from the teardown itself or
from the last forwarded operation.  The one `destroy` is a token: it is with the worker that
dropped the last reference, then in the queue, then with the owner's teardown, and last it is
`DESTROYED`.
-/

namespace Uvent.Net.Forwarding

open Uvent.Lib Uvent.Net.StateWord

namespace Pc

/-- The operation is counted in `pending_ops` and not in the queue yet. -/
def pushes : Pc → Bool
  | .forwardPush _ _ _ | .destroyPush => true
  | _ => false

/-- The owner has taken an operation from the queue, which `pending_ops` still counts. -/
def inOp : Pc → Bool
  | .opArm _ | .opCancel | .opDone => true
  | .tearCancel forOp | .tearClose forOp | .tearFlag forOp | .tearCheck forOp => forOp
  | _ => false

/-- `destroy` has begun, and `DESTROYED` is not set. -/
def digs : Pc → Bool
  | .destroyMark | .destroyCount | .destroyPush => true
  | .tearCancel _ | .tearClose _ | .tearFlag _ => true
  | _ => false

def checks : Pc → Bool
  | .tearCheck _ => true
  | _ => false

def frees : Pc → Bool
  | .opFree => true
  | _ => false

end Pc

/-- References are counted: as long as a handle is live or a worker has the timer's
reference the count is not 0. -/
def Counted (w : Workers) : Prop :=
  (w.shared.handles.Nonempty ∨ ∃ t, (w.own t).ownsRef = true) → countOf w.shared.state ≠ 0

inductive Burial (s : Header) (ownerPc : Pc) : Prop where
  | alive (undone : s.destroyed = false) (unfreed : s.retired = 0)
      (unchecked : ownerPc.checks = false)
  | checking (done : s.destroyed = true) (unfreed : s.retired = 0)
      (checks : ownerPc.checks = true)
  | pending (done : s.destroyed = true) (unfreed : s.retired = 0)
      (checked : ownerPc.checks = false) (unfreeing : ownerPc.frees = false)
      (pending : 0 < s.pendingOps)
  | freeing (done : s.destroyed = true) (unfreed : s.retired = 0)
      (frees : ownerPc.frees = true) (nothing : s.pendingOps = 0)
  | freed (done : s.destroyed = true) (freed : s.retired = 1)
      (checked : ownerPc.checks = false) (unfreeing : ownerPc.frees = false)
      (nothing : s.pendingOps = 0)

/-- `k` workers are about to push an operation, `m` have begun to destroy the header. -/
structure Retiring (owner k m : Nat) (w : Workers) : Prop where
  home : ∀ t, (w.own t).ownerOnly = true → t = owner
  live : ∀ t h, (w.own t).handle = some h → h ∈ w.shared.handles
  plain : ∀ t, (w.own t).forwardsDestroy = false
  pushing : Tallied Pc.pushes w.own k
  pending : w.shared.pendingOps =
    w.shared.ops.length + k + (w.own owner).inOp.toNat
  digging : Tallied Pc.digs w.own m
  token : m + w.shared.ops.count .destroy + w.shared.destroyed.toNat = w.shared.destroys
  once : w.shared.destroys ≤ 1
  zero : w.shared.destroys = 1 → countOf w.shared.state = 0
  held : w.shared.destroys = 0 → countOf w.shared.state = 0 → w.shared.handles.Nonempty
  burial : Burial w.shared (w.own owner)

section Retiring

variable {owner k k' m m' : Nat} {w : Workers} {t : Nat} {s : Header} {pc : Pc}

theorem Retiring.of_move (h : Retiring owner k m w) (hhome : pc.ownerOnly = true → t = owner)
    (hlive : ∀ x, pc.handle = some x → x ∈ s.handles)
    (hothers : ∀ t' x, t' ≠ t → (w.own t').handle = some x → x ∈ s.handles)
    (hplain : pc.forwardsDestroy = false)
    (hpushing : Tallied Pc.pushes (Function.update w.own t pc) k')
    (hpending : s.pendingOps = s.ops.length + k' + ((w.move t (s, pc)).own owner).inOp.toNat)
    (hdigging : Tallied Pc.digs (Function.update w.own t pc) m')
    (htoken : m' + s.ops.count .destroy + s.destroyed.toNat = s.destroys)
    (honce : s.destroys ≤ 1) (hzero : s.destroys = 1 → countOf s.state = 0)
    (hheld : s.destroys = 0 → countOf s.state = 0 → s.handles.Nonempty)
    (hburial : Burial s ((w.move t (s, pc)).own owner)) :
    Retiring owner k' m' (w.move t (s, pc)) := by
  refine ⟨fun t' => ?_, fun t' => ?_, fun t' => ?_, hpushing, hpending, hdigging, htoken, honce,
    hzero, hheld, hburial⟩
  · by_cases htt : t' = t
    · subst htt
      rw [move_own_self]
      exact hhome
    · rw [move_own_of_ne htt]
      exact h.home t'
  · intro x
    by_cases htt : t' = t
    · subst htt
      rw [move_own_self]
      exact hlive x
    · rw [move_own_of_ne htt]
      exact hothers t' x htt
  · by_cases htt : t' = t
    · subst htt
      rw [move_own_self]
      exact hplain
    · rw [move_own_of_ne htt]
      exact h.plain t'

/-- What `t` is at matters for the owner only if `t` is the owner. -/
theorem owner_move {f : Pc → Bool} (hf : f pc = f (w.own t)) :
    f ((w.move t (s, pc)).own owner) = f (w.own owner) := by
  by_cases hto : owner = t
  · subst hto
    rw [move_own_self]
    exact hf
  · rw [move_own_of_ne hto]

theorem Burial.of_same {s s' : Header} {pc pc' : Pc} (h : Burial s pc)
    (hdestroyed : s'.destroyed = s.destroyed) (hretired : s'.retired = s.retired)
    (hpending : s'.pendingOps = s.pendingOps) (hchecks : pc'.checks = pc.checks)
    (hfrees : pc'.frees = pc.frees) : Burial s' pc' := by
  cases h with
  | alive undone unfreed unchecked =>
      exact .alive (hdestroyed.trans undone) (hretired.trans unfreed) (hchecks.trans unchecked)
  | checking done unfreed checks =>
      exact .checking (hdestroyed.trans done) (hretired.trans unfreed) (hchecks.trans checks)
  | pending done unfreed checked unfreeing pending =>
      exact .pending (hdestroyed.trans done) (hretired.trans unfreed) (hchecks.trans checked)
        (hfrees.trans unfreeing) (hpending ▸ pending)
  | freeing done unfreed frees nothing =>
      exact .freeing (hdestroyed.trans done) (hretired.trans unfreed) (hfrees.trans frees)
        (hpending.trans nothing)
  | freed done freed checked unfreeing nothing =>
      exact .freed (hdestroyed.trans done) (hretired.trans freed) (hchecks.trans checked)
        (hfrees.trans unfreeing) (hpending.trans nothing)

structure SameEnd (s s' : Header) : Prop where
  destroyed : s'.destroyed = s.destroyed
  retired : s'.retired = s.retired
  pendingOps : s'.pendingOps = s.pendingOps
  ops : s'.ops = s.ops
  destroys : s'.destroys = s.destroys

structure SamePlace (pc pc' : Pc) : Prop where
  pushes : pc'.pushes = pc.pushes
  inOp : pc'.inOp = pc.inOp
  digs : pc'.digs = pc.digs
  checks : pc'.checks = pc.checks
  frees : pc'.frees = pc.frees

theorem Retiring.still (h : Retiring owner k m w) (hend : SameEnd w.shared s)
    (hplace : SamePlace (w.own t) pc) (hhome : pc.ownerOnly = true → t = owner)
    (hlive : ∀ x, pc.handle = some x → x ∈ s.handles) (hsub : w.shared.handles ⊆ s.handles)
    (hplain : pc.forwardsDestroy = false)
    (hcount : countOf s.state = countOf w.shared.state ∨
      (countOf w.shared.state ≠ 0 ∧ s.handles.Nonempty)) :
    Retiring owner k m (w.move t (s, pc)) := by
  refine h.of_move hhome hlive (fun t' x _ hx => hsub (h.live t' x hx)) hplain
    (h.pushing.same hplace.pushes) ?_ (h.digging.same hplace.digs) ?_ ?_ ?_ ?_
    (h.burial.of_same hend.destroyed hend.retired hend.pendingOps (owner_move hplace.checks)
      (owner_move hplace.frees))
  · rw [owner_move (f := Pc.inOp) hplace.inOp, hend.pendingOps, hend.ops]
    exact h.pending
  · rw [hend.ops, hend.destroyed, hend.destroys]
    exact h.token
  · rw [hend.destroys]
    exact h.once
  · rw [hend.destroys]
    intro hdestroys
    obtain hsame | ⟨hne, -⟩ := hcount
    · exact hsame.trans (h.zero hdestroys)
    · exact absurd (h.zero hdestroys) hne
  · rw [hend.destroys]
    intro hdestroys hzero
    obtain hsame | ⟨-, hnonempty⟩ := hcount
    · exact (h.held hdestroys (hsame.symm.trans hzero)).mono hsub
    · exact hnonempty

theorem Retiring.unbegun (h : Retiring owner k m w) (hne : countOf w.shared.state ≠ 0) :
    w.shared.destroys = 0 := by
  have := h.once
  by_contra hdestroys
  exact hne (h.zero (by omega))

theorem Retiring.undone (h : Retiring owner k m w) (hdigs : (w.own t).digs = true) :
    w.shared.destroyed = false ∧ w.shared.ops.count .destroy = 0 ∧ m = 1 := by
  have hpos := h.digging.pos hdigs
  have htoken := h.token
  have honce := h.once
  cases hd : w.shared.destroyed with
  | false =>
      rw [hd] at htoken
      simp only [Bool.toNat_false] at htoken
      exact ⟨rfl, by omega, by omega⟩
  | true =>
      rw [hd] at htoken
      simp only [Bool.toNat_true] at htoken
      omega

theorem Burial.retired_zero {s : Header} {pc : Pc} (h : Burial s pc) (hundone : s.destroyed = false) :
    s.retired = 0 ∧ pc.checks = false := by
  cases h with
  | alive _ unfreed unchecked => exact ⟨unfreed, unchecked⟩
  | checking done | pending done | freeing done | freed done =>
      rw [hundone] at done
      cases done

theorem countOf_dropped {s : Word} (hne : countOf s ≠ 0) :
    countOf (StateWord.release s).2 + 1 = countOf s := by
  have hpos : 0 < countOf s := Nat.pos_of_ne_zero hne
  have hcount : countOf (s - 1) = countOf s - 1 := (sub_one_of_pos hpos).2
  show countOf (s - 1) + 1 = countOf s
  omega

theorem Retiring.begin {pc : Pc} (h : Retiring owner k m w)
    (hne : countOf w.shared.state ≠ 0) (hend : s.destroyed = w.shared.destroyed)
    (hretired : s.retired = w.shared.retired) (hpendingOps : s.pendingOps = w.shared.pendingOps)
    (hops : s.ops = w.shared.ops) (hdestroys : s.destroys = w.shared.destroys + 1)
    (hzero : countOf s.state = 0)
    (hothers : ∀ t' x, t' ≠ t → (w.own t').handle = some x → x ∈ s.handles)
    (hpushes : pc.pushes = (w.own t).pushes) (hinOp : pc.inOp = (w.own t).inOp)
    (hchecks : pc.checks = (w.own t).checks) (hfrees : pc.frees = (w.own t).frees)
    (hold : (w.own t).digs = false) (hdigs : pc.digs = true) (hnone : pc.handle = none)
    (hhome : pc.ownerOnly = true → t = owner) (hplain : pc.forwardsDestroy = false) :
    Retiring owner k (m + 1) (w.move t (s, pc)) := by
  have hnobody := h.unbegun hne
  have htoken := h.token
  refine h.of_move hhome ?_ hothers hplain (h.pushing.same hpushes) ?_ (h.digging.gain hold hdigs)
    ?_ ?_ (fun _ => hzero) ?_
    (h.burial.of_same hend hretired hpendingOps (owner_move hchecks) (owner_move hfrees))
  · intro x hx
    rw [hnone] at hx
    cases hx
  · rw [owner_move (f := Pc.inOp) hinOp, hpendingOps, hops]
    exact h.pending
  · rw [hops, hend, hdestroys]
    omega
  · omega
  · intro hcontra
    omega

theorem Retiring.release {handles : Finset Nat} {dropped : Nat} (h : Retiring owner k m w)
    (hne : countOf w.shared.state ≠ 0)
    (hothers : ∀ t' x, t' ≠ t → (w.own t').handle = some x → x ∈ handles)
    (hplace : SamePlace (w.own t) .idle) :
    ∃ m', Retiring owner k m' (w.move t
      ({ w.shared with handles := handles, dropped := dropped }.release owner t)) := by
  have hdown := countOf_dropped hne
  have hnobody := h.unbegun hne
  unfold Header.release
  by_cases hlast : (StateWord.release w.shared.state).1 = true
  · have hone := (release_fst _).mp hlast
    have hzero : countOf (StateWord.release w.shared.state).2 = 0 := by omega
    rw [if_pos hlast]
    refine ⟨m + 1, h.begin hne rfl rfl rfl rfl rfl hzero hothers ?_ ?_ ?_ ?_ ?_ ?_ ?_ ?_ ?_⟩
    · rw [← hplace.pushes]
      split <;> rfl
    · rw [← hplace.inOp]
      split <;> rfl
    · rw [← hplace.checks]
      split <;> rfl
    · rw [← hplace.frees]
      split <;> rfl
    · rw [← hplace.digs]
      rfl
    · split <;> rfl
    · split <;> rfl
    · split
      · rename_i ht
        exact fun _ => ht
      · exact fun hhome => Bool.noConfusion hhome
    · split <;> rfl
  · have hmore : countOf w.shared.state ≠ 1 := fun hone => hlast ((release_fst _).mpr hone)
    rw [if_neg hlast]
    refine ⟨m, h.of_move (fun hhome => Bool.noConfusion hhome) ?_ hothers rfl
      (h.pushing.same hplace.pushes) ?_ (h.digging.same hplace.digs) h.token h.once ?_ ?_
      (h.burial.of_same rfl rfl rfl (owner_move hplace.checks) (owner_move hplace.frees))⟩
    · intro x hx
      cases hx
    · rw [owner_move (f := Pc.inOp) hplace.inOp]
      exact h.pending
    · intro hdestroys
      rw [hnobody] at hdestroys
      cases hdestroys
    · intro _ hzero
      dsimp only at hzero
      omega

end Retiring

/-! ## Steps apart from the end -/

def Pc.apart : Pc → Bool
  | .copy _ | .setAddRef _ _ | .shutRelease _ | .callbackRelease => false
  | .forwardCount _ _ _ | .forwardPush _ _ _ | .destroyCount | .destroyPush => false
  | .tearFlag _ | .tearCheck _ | .opDone | .opFree => false
  | _ => true

structure Apart (owner t : Nat) (s : Header) (pc : Pc) (r : Header × Pc) : Prop where
  ends : SameEnd s r.1
  place : SamePlace pc r.2
  handles : r.1.handles = s.handles
  count : countOf r.1.state = countOf s.state
  home : r.2.ownerOnly = true → t = owner
  handle : ∀ x, r.2.handle = some x → pc.handle = some x
  plain : r.2.forwardsDestroy = false

section Apart

variable {owner t : Nat} {s : Header} {pc : Pc}

theorem SameEnd.refl (s : Header) : SameEnd s s := ⟨rfl, rfl, rfl, rfl, rfl⟩

theorem Apart.of_timer {s' : Header} {pc' : Pc} (hends : SameEnd s s')
    (hplace : SamePlace pc pc') (hhandles : s'.handles = s.handles) (hstate : s'.state = s.state)
    (hhome : pc'.ownerOnly = true → t = owner)
    (hhandle : ∀ x, pc'.handle = some x → pc.handle = some x)
    (hplain : pc'.forwardsDestroy = false) : Apart owner t s pc (s', pc') :=
  ⟨hends, hplace, hhandles, congrArg countOf hstate, hhome, hhandle, hplain⟩

theorem Apart.rests {s' : Header} (hends : SameEnd s s') (hplace : SamePlace pc .idle)
    (hhandles : s'.handles = s.handles) (hstate : s'.state = s.state) :
    Apart owner t s pc (s', .idle) :=
  .of_timer hends hplace hhandles hstate (fun hhome => Bool.noConfusion hhome)
    (by simp [Pc.handle]) rfl

theorem Apart.goes {pc' : Pc} (hplace : SamePlace pc pc')
    (hhome : pc'.ownerOnly = true → t = owner)
    (hhandle : ∀ x, pc'.handle = some x → pc.handle = some x)
    (hplain : pc'.forwardsDestroy = false) : Apart owner t s pc (s, pc') :=
  .of_timer (.refl s) hplace rfl rfl hhome hhandle hplain

theorem cancelTimer_ends (s : Header) (id : Nat) : SameEnd s (s.cancelTimer id).2 ∧
    (s.cancelTimer id).2.handles = s.handles ∧ (s.cancelTimer id).2.state = s.state := by
  unfold Header.cancelTimer
  split <;> exact ⟨⟨rfl, rfl, rfl, rfl, rfl⟩, rfl, rfl⟩

theorem cancelArmed_ends (s : Header) : SameEnd s s.cancelArmed ∧
    s.cancelArmed.handles = s.handles ∧ s.cancelArmed.state = s.state := by
  unfold Header.cancelArmed
  split
  · exact ⟨.refl s, rfl, rfl⟩
  · obtain ⟨hends, hhandles, hstate⟩ := cancelTimer_ends s s.timerId
    exact ⟨⟨hends.destroyed, hends.retired, hends.pendingOps, hends.ops, hends.destroys⟩,
      hhandles, hstate⟩

theorem armOrRefresh_ends (s : Header) (timeoutMs : Nat) :
    SameEnd s (s.armOrRefreshSocketTimer timeoutMs) ∧
      (s.armOrRefreshSocketTimer timeoutMs).handles = s.handles ∧
      (s.armOrRefreshSocketTimer timeoutMs).state = s.state := by
  unfold Header.armOrRefreshSocketTimer
  split <;> exact ⟨⟨rfl, rfl, rfl, rfl, rfl⟩, rfl, rfl⟩

/-- Each of the points apart is as its name says. -/
theorem exec_apart (hpc : pc.apart = true) (hhome : pc.ownerOnly = true → t = owner) :
    Apart owner t s pc (exec owner t s pc) := by
  cases pc with
  | copy | setAddRef | shutRelease | callbackRelease => cases hpc
  | forwardCount | forwardPush | destroyCount | destroyPush => cases hpc
  | tearFlag | tearCheck | opDone | opFree => cases hpc
  | idle => exact .rests (.refl s) ⟨rfl, rfl, rfl, rfl, rfl⟩ rfl rfl
  | setLoad h timeoutMs =>
      rw [exec.eq_def]
      dsimp only
      split
      · exact .goes ⟨rfl, rfl, rfl, rfl, rfl⟩ (by simp [Pc.ownerOnly]) (fun _ hx => hx) rfl
      split
      · exact .rests ⟨rfl, rfl, rfl, rfl, rfl⟩ ⟨rfl, rfl, rfl, rfl, rfl⟩ rfl rfl
      · exact .goes ⟨rfl, rfl, rfl, rfl, rfl⟩ (by simp [Pc.ownerOnly]) (fun _ hx => hx) rfl
  | setClear h timeoutMs took =>
      rw [exec.eq_def]
      dsimp only
      split
      · rename_i ht
        exact .of_timer ⟨rfl, rfl, rfl, rfl, rfl⟩ ⟨rfl, rfl, rfl, rfl, rfl⟩ rfl rfl (fun _ => ht)
          (fun _ hx => hx) rfl
      · exact .of_timer ⟨rfl, rfl, rfl, rfl, rfl⟩ ⟨rfl, rfl, rfl, rfl, rfl⟩ rfl rfl
          (by simp [Pc.ownerOnly]) (fun _ hx => hx) rfl
  | setArm h timeoutMs =>
      obtain ⟨hends, hhandles, hstate⟩ := armOrRefresh_ends s timeoutMs
      exact .rests hends ⟨rfl, rfl, rfl, rfl, rfl⟩ hhandles hstate
  | updateLoad h timeoutMs =>
      rw [exec.eq_def]
      dsimp only
      split
      · exact .rests ⟨rfl, rfl, rfl, rfl, rfl⟩ ⟨rfl, rfl, rfl, rfl, rfl⟩ rfl rfl
      split
      · exact .rests (.refl s) ⟨rfl, rfl, rfl, rfl, rfl⟩ rfl rfl
      · exact .goes ⟨rfl, rfl, rfl, rfl, rfl⟩ (by simp [Pc.ownerOnly]) (fun _ hx => hx) rfl
  | shutLoad h =>
      obtain ⟨hends, hhandles, hstate⟩ := cancelArmed_ends s
      rw [exec.eq_def]
      dsimp only
      split
      · split
        · exact .of_timer hends ⟨rfl, rfl, rfl, rfl, rfl⟩ hhandles hstate (by simp [Pc.ownerOnly])
            (fun _ hx => hx) rfl
        · exact .rests (.refl s) ⟨rfl, rfl, rfl, rfl, rfl⟩ rfl rfl
      · exact .goes ⟨rfl, rfl, rfl, rfl, rfl⟩ (by simp [Pc.ownerOnly]) (fun _ hx => hx) rfl
  | shutClaim h =>
      rw [exec.eq_def]
      dsimp only
      split
      · exact .rests ⟨rfl, rfl, rfl, rfl, rfl⟩ ⟨rfl, rfl, rfl, rfl, rfl⟩ rfl rfl
      · exact .of_timer ⟨rfl, rfl, rfl, rfl, rfl⟩ ⟨rfl, rfl, rfl, rfl, rfl⟩ rfl rfl
          (by simp [Pc.ownerOnly]) (fun _ hx => hx) rfl
  | destroyMark =>
      exact .of_timer ⟨rfl, rfl, rfl, rfl, rfl⟩ ⟨rfl, rfl, rfl, rfl, rfl⟩ rfl rfl
        (by simp [Pc.ownerOnly]) (by simp [Pc.handle]) rfl
  | tearCancel forOp =>
      obtain ⟨hends, hhandles, hstate⟩ := cancelArmed_ends s
      exact .of_timer hends ⟨rfl, rfl, rfl, rfl, rfl⟩ hhandles hstate (fun _ => hhome rfl)
        (by simp [Pc.handle]) rfl
  | tearClose forOp =>
      exact ⟨⟨rfl, rfl, rfl, rfl, rfl⟩, ⟨rfl, rfl, rfl, rfl, rfl⟩, rfl, countOf_closeForNewRefs _,
        fun _ => hhome rfl, by simp [exec, Pc.handle], rfl⟩
  | callbackClaim =>
      exact .of_timer ⟨rfl, rfl, rfl, rfl, rfl⟩ ⟨rfl, rfl, rfl, rfl, rfl⟩ rfl rfl
        (fun _ => hhome rfl) (by simp [Pc.handle]) rfl
  | callbackReset adopted =>
      rw [exec.eq_def]
      dsimp only
      split
      · exact .of_timer ⟨rfl, rfl, rfl, rfl, rfl⟩ ⟨rfl, rfl, rfl, rfl, rfl⟩ rfl rfl
          (fun _ => hhome rfl) (by simp [Pc.handle]) rfl
      · exact .rests ⟨rfl, rfl, rfl, rfl, rfl⟩ ⟨rfl, rfl, rfl, rfl, rfl⟩ rfl rfl
  | opArm timeoutMs =>
      obtain ⟨hends, hhandles, hstate⟩ := armOrRefresh_ends s timeoutMs
      exact .of_timer hends ⟨rfl, rfl, rfl, rfl, rfl⟩ hhandles hstate (fun _ => hhome rfl)
        (by simp [Pc.handle]) rfl
  | opCancel =>
      obtain ⟨hends, hhandles, hstate⟩ := cancelArmed_ends s
      exact .of_timer hends ⟨rfl, rfl, rfl, rfl, rfl⟩ hhandles hstate (fun _ => hhome rfl)
        (by simp [Pc.handle]) rfl

end Apart

/-! ## Steps of the end -/

section End

variable {owner k m : Nat} {w w' : Workers} {t : Nat} {s : Header} {pc : Pc}

theorem Retiring.alive (h : Retiring owner k m w) (hundone : w.shared.destroyed = false)
    (hend : s.destroyed = w.shared.destroyed) (hretired : s.retired = w.shared.retired)
    (hchecks : pc.checks = (w.own t).checks) :
    Burial s ((w.move t (s, pc)).own owner) := by
  obtain ⟨hunfreed, hunchecked⟩ := h.burial.retired_zero hundone
  exact .alive (hend.trans hundone) (hretired.trans hunfreed)
    ((owner_move (f := Pc.checks) hchecks).trans hunchecked)

theorem Retiring.counts (h : Retiring owner k m w) (hundone : w.shared.destroyed = false)
    (hold : (w.own t).pushes = false) (hpushes : pc.pushes = true)
    (hinOp : pc.inOp = (w.own t).inOp) (hdigs : pc.digs = (w.own t).digs)
    (hchecks : pc.checks = (w.own t).checks) (hhome : pc.ownerOnly = true → t = owner)
    (hhandle : ∀ x, pc.handle = some x → (w.own t).handle = some x)
    (hplain : pc.forwardsDestroy = false) :
    Retiring owner (k + 1) m
      (w.move t ({ w.shared with pendingOps := w.shared.pendingOps + 1 }, pc)) := by
  have hpending := h.pending
  refine h.of_move hhome (fun x hx => h.live t x (hhandle x hx)) (fun t' x _ hx => h.live t' x hx)
    hplain (h.pushing.gain hold hpushes) ?_ (h.digging.same hdigs) h.token h.once h.zero h.held
    (h.alive hundone rfl rfl hchecks)
  rw [owner_move (f := Pc.inOp) hinOp]
  dsimp only
  omega

theorem forwardCount_retiring {x : Nat} {op : SocketOp} {hadTimer : Bool}
    (h : Retiring owner k m w) (hcounted : Counted w) (hpc : w.own t = .forwardCount x op hadTimer) :
    Retiring owner (k + 1) m (w.move t (exec owner t w.shared (.forwardCount x op hadTimer))) := by
  have hx : x ∈ w.shared.handles := h.live t x (by rw [hpc]; rfl)
  have hnobody := h.unbegun (hcounted (.inl ⟨x, hx⟩))
  have htoken := h.token
  have hplain := h.plain t
  have hundone : w.shared.destroyed = false := by
    cases hd : w.shared.destroyed with
    | false => rfl
    | true =>
        rw [hd, hnobody] at htoken
        simp at htoken
  rw [hpc] at hplain
  refine h.counts hundone ?_ rfl ?_ ?_ ?_ (fun hhome => Bool.noConfusion hhome) ?_ hplain
  · rw [hpc]; rfl
  · rw [hpc]; rfl
  · rw [hpc]; rfl
  · rw [hpc]; rfl
  · rw [hpc]
    exact fun _ hy => hy

theorem destroyCount_retiring (h : Retiring owner k m w) (hpc : w.own t = .destroyCount) :
    Retiring owner (k + 1) m (w.move t (exec owner t w.shared .destroyCount)) := by
  obtain ⟨hundone, -, -⟩ := h.undone (t := t) (by rw [hpc]; rfl)
  refine h.counts hundone ?_ rfl ?_ ?_ ?_ (fun hhome => Bool.noConfusion hhome)
    (by simp [Pc.handle]) rfl
  · rw [hpc]; rfl
  · rw [hpc]; rfl
  · rw [hpc]; rfl
  · rw [hpc]; rfl

/-- A counted operation goes to the queue; a `Destroy` takes the token with it. -/
theorem Retiring.push {m' : Nat} {op : SocketOp} (h : Retiring owner (k + 1) m w)
    (hold : (w.own t).pushes = true) (hpushes : pc.pushes = false)
    (hinOp : pc.inOp = (w.own t).inOp) (hchecks : pc.checks = (w.own t).checks)
    (hfrees : pc.frees = (w.own t).frees) (hhome : pc.ownerOnly = true → t = owner)
    (hhandle : ∀ x, pc.handle = some x → (w.own t).handle = some x)
    (hplain : pc.forwardsDestroy = false)
    (hdigging : Tallied Pc.digs (Function.update w.own t pc) m')
    (htoken : m' + (w.shared.ops ++ [op]).count .destroy = m + w.shared.ops.count .destroy) :
    Retiring owner k m' (w.move t ({ w.shared with ops := w.shared.ops ++ [op] }, pc)) := by
  have hpending := h.pending
  have hbooks := h.token
  refine h.of_move hhome (fun x hx => h.live t x (hhandle x hx)) (fun t' x _ hx => h.live t' x hx)
    hplain (h.pushing.lose hold hpushes) ?_ hdigging ?_ h.once h.zero h.held
    (h.burial.of_same rfl rfl rfl (owner_move hchecks) (owner_move hfrees))
  · rw [owner_move (f := Pc.inOp) hinOp]
    simp only [List.length_append, List.length_singleton]
    omega
  · dsimp only
    omega

theorem forwardPush_retiring {x : Nat} {op : SocketOp} {hadTimer : Bool}
    (h : Retiring owner k m w) (hpc : w.own t = .forwardPush x op hadTimer) :
    ∃ k', Retiring owner k' m
      (w.move t (exec owner t w.shared (.forwardPush x op hadTimer))) := by
  have hold : (w.own t).pushes = true := by rw [hpc]; rfl
  have hpos := h.pushing.pos hold
  have hplain := h.plain t
  rw [hpc] at hplain
  have hop : op ≠ .destroy := by
    rintro rfl
    cases hplain
  have hcount : (w.shared.ops ++ [op]).count .destroy = w.shared.ops.count .destroy := by
    rw [List.count_append, List.count_singleton, if_neg (by simpa using hop), Nat.add_zero]
  obtain ⟨k', rfl⟩ : ∃ k', k = k' + 1 := ⟨k - 1, by omega⟩
  refine ⟨k', ?_⟩
  rw [exec.eq_def]
  dsimp only
  split
  · refine h.push hold rfl ?_ ?_ ?_ (fun hhome => Bool.noConfusion hhome) ?_ rfl
      (h.digging.same ?_) (by rw [hcount])
    · rw [hpc]; rfl
    · rw [hpc]; rfl
    · rw [hpc]; rfl
    · rw [hpc]
      exact fun _ hy => hy
    · rw [hpc]; rfl
  · refine h.push hold rfl ?_ ?_ ?_ (fun hhome => Bool.noConfusion hhome) (by simp [Pc.handle]) rfl
      (h.digging.same ?_) (by rw [hcount])
    · rw [hpc]; rfl
    · rw [hpc]; rfl
    · rw [hpc]; rfl
    · rw [hpc]; rfl

theorem destroyPush_retiring (h : Retiring owner k m w) (hpc : w.own t = .destroyPush) :
    ∃ k' m', Retiring owner k' m' (w.move t (exec owner t w.shared .destroyPush)) := by
  have hold : (w.own t).pushes = true := by rw [hpc]; rfl
  have hdigs : (w.own t).digs = true := by rw [hpc]; rfl
  have hpos := h.pushing.pos hold
  have hpos' := h.digging.pos hdigs
  obtain ⟨k', rfl⟩ : ∃ k', k = k' + 1 := ⟨k - 1, by omega⟩
  obtain ⟨m', rfl⟩ : ∃ m', m = m' + 1 := ⟨m - 1, by omega⟩
  refine ⟨k', m', h.push hold rfl ?_ ?_ ?_ (fun hhome => Bool.noConfusion hhome)
    (by simp [Pc.handle]) rfl (h.digging.lose hdigs rfl) ?_⟩
  · rw [hpc]; rfl
  · rw [hpc]; rfl
  · rw [hpc]; rfl
  · rw [List.count_append, List.count_singleton, if_pos (beq_self_eq_true _)]
    omega

/-- A step of the owner at its teardown or at an operation, which leaves the reference
count, the handles and the queue. -/
theorem Retiring.tends {m' : Nat} (h : Retiring t k m w) (hhandles : s.handles = w.shared.handles)
    (hcount : s.state = w.shared.state) (hops : s.ops = w.shared.ops)
    (hdestroys : s.destroys = w.shared.destroys) (hpushes : pc.pushes = (w.own t).pushes)
    (hnone : pc.handle = none) (hplain : pc.forwardsDestroy = false)
    (hpending : s.pendingOps + (w.own t).inOp.toNat = w.shared.pendingOps + pc.inOp.toNat)
    (hdigging : Tallied Pc.digs (Function.update w.own t pc) m')
    (htoken : m' + s.destroyed.toNat = m + w.shared.destroyed.toNat) (hburial : Burial s pc) :
    Retiring t k m' (w.move t (s, pc)) := by
  have hbooks := h.pending
  have hbooks' := h.token
  refine h.of_move (fun _ => rfl) ?_ ?_ hplain (h.pushing.same hpushes) ?_ hdigging ?_ ?_ ?_ ?_ ?_
  · intro x hx
    rw [hnone] at hx
    cases hx
  · intro t' x _ hx
    rw [hhandles]
    exact h.live t' x hx
  · rw [move_own_self, hops]
    dsimp only
    omega
  · rw [hops, hdestroys]
    omega
  · rw [hdestroys]
    exact h.once
  · rw [hdestroys, hcount]
    exact h.zero
  · rw [hdestroys, hcount, hhandles]
    exact h.held
  · rw [move_own_self]
    exact hburial

theorem tearFlag_retiring {forOp : Bool} (h : Retiring owner k m w)
    (hpc : w.own t = .tearFlag forOp) :
    ∃ m', Retiring owner k m' (w.move t (exec owner t w.shared (.tearFlag forOp))) := by
  obtain rfl : t = owner := h.home t (by rw [hpc]; rfl)
  have hdigs : (w.own t).digs = true := by rw [hpc]; rfl
  obtain ⟨hundone, -, rfl⟩ := h.undone hdigs
  obtain ⟨hunfreed, -⟩ := h.burial.retired_zero hundone
  refine ⟨0, h.tends rfl rfl rfl rfl ?_ rfl rfl ?_ (h.digging.lose hdigs rfl) ?_
    (.checking rfl hunfreed rfl)⟩
  · rw [hpc]; rfl
  · rw [hpc]; rfl
  · rw [hundone]
    rfl

/-- The teardown is over: it frees the header if no operation is pending. -/
theorem tearCheck_retiring {forOp : Bool} (h : Retiring owner k m w)
    (hpc : w.own t = .tearCheck forOp) :
    Retiring owner k m (w.move t (exec owner t w.shared (.tearCheck forOp))) := by
  obtain rfl : t = owner := h.home t (by rw [hpc]; rfl)
  have hpending := h.pending
  have hburial := h.burial
  have hdone : w.shared.destroyed = true ∧ w.shared.retired = 0 := by
    rw [hpc] at hburial
    cases hburial with
    | checking done unfreed => exact ⟨done, unfreed⟩
    | alive _ _ unchecked => cases unchecked
    | pending _ _ checked | freed _ _ checked => cases checked
    | freeing _ _ frees => cases frees
  obtain ⟨hdestroyed, hunfreed⟩ := hdone
  have hdigs : ∀ pc : Pc, pc.digs = false → pc.digs = (w.own t).digs := by
    intro pc hnot
    rw [hpc, hnot]
    rfl
  rw [hpc] at hpending
  rw [exec.eq_def]
  dsimp only
  cases forOp with
  | true =>
      -- the `Destroy` itself is counted until `opDone`
      have hpos : 0 < w.shared.pendingOps := by
        simp only [Pc.inOp, Bool.toNat_true] at hpending
        omega
      refine h.tends rfl rfl rfl rfl ?_ rfl rfl ?_ (h.digging.same (hdigs _ rfl)) rfl ?_
      · rw [hpc]; rfl
      · rw [hpc]; rfl
      · refine .pending hdestroyed ?_ rfl rfl hpos
        rw [if_neg (by omega), Nat.add_zero]
        exact hunfreed
  | false =>
      refine h.tends rfl rfl rfl rfl ?_ rfl rfl ?_ (h.digging.same (hdigs _ rfl)) rfl ?_
      · rw [hpc]; rfl
      · rw [hpc]; rfl
      · by_cases hnone : w.shared.pendingOps = 0
        · refine .freed hdestroyed ?_ rfl rfl hnone
          rw [if_pos hnone, hunfreed]
        · refine .pending hdestroyed ?_ rfl rfl (by dsimp only; omega)
          rw [if_neg hnone, Nat.add_zero]
          exact hunfreed

theorem opDone_retiring (h : Retiring owner k m w) (hpc : w.own t = .opDone) :
    Retiring owner k m (w.move t (exec owner t w.shared .opDone)) := by
  obtain rfl : t = owner := h.home t (by rw [hpc]; rfl)
  have hpending := h.pending
  have hburial := h.burial
  rw [hpc] at hpending hburial
  have hpos : 0 < w.shared.pendingOps := by
    simp only [Pc.inOp, Bool.toNat_true] at hpending
    omega
  have hgo : ∀ pc : Pc, pc.pushes = false → pc.inOp = false → pc.digs = false → pc.handle = none →
      pc.forwardsDestroy = false →
      Burial { w.shared with pendingOps := w.shared.pendingOps - 1 } pc →
      Retiring t k m
        (w.move t ({ w.shared with pendingOps := w.shared.pendingOps - 1 }, pc)) := by
    intro pc hpushes hinOp hdigs hnone hplain hburial'
    refine h.tends rfl rfl rfl rfl ?_ hnone hplain ?_ (h.digging.same ?_) rfl hburial'
    · rw [hpushes, hpc]; rfl
    · rw [hinOp, hpc]
      show w.shared.pendingOps - 1 + 1 = w.shared.pendingOps + 0
      omega
    · rw [hdigs, hpc]; rfl
  rw [exec.eq_def]
  dsimp only
  by_cases hone : w.shared.pendingOps = 1
  · rw [if_pos hone]
    refine hgo .opFree rfl rfl rfl rfl rfl ?_
    cases hburial with
    | alive undone unfreed => exact .alive undone unfreed rfl
    | checking _ _ checks => cases checks
    | pending done unfreed => exact .freeing done unfreed rfl (by dsimp only; omega)
    | freeing _ _ frees => cases frees
    | freed _ _ _ _ nothing => omega
  · rw [if_neg hone]
    refine hgo .idle rfl rfl rfl rfl rfl ?_
    cases hburial with
    | alive undone unfreed => exact .alive undone unfreed rfl
    | checking _ _ checks => cases checks
    | pending done unfreed => exact .pending done unfreed rfl rfl (by dsimp only; omega)
    | freeing _ _ frees => cases frees
    | freed _ _ _ _ nothing => omega

/-- The last operation is applied: it frees the header if it is torn down. -/
theorem opFree_retiring (h : Retiring owner k m w) (hpc : w.own t = .opFree) :
    Retiring owner k m (w.move t (exec owner t w.shared .opFree)) := by
  obtain rfl : t = owner := h.home t (by rw [hpc]; rfl)
  have hburial := h.burial
  rw [hpc] at hburial
  refine h.tends rfl rfl rfl rfl ?_ rfl rfl ?_ (h.digging.same ?_) rfl ?_
  · rw [hpc]; rfl
  · rw [hpc]; rfl
  · rw [hpc]; rfl
  · cases hburial with
    | alive undone unfreed =>
        refine .alive undone ?_ rfl
        rw [undone, unfreed]
        rfl
    | checking _ _ checks => cases checks
    | pending _ _ _ unfreeing => cases unfreeing
    | freeing done unfreed _ nothing =>
        refine .freed done ?_ rfl rfl nothing
        rw [done, unfreed]
        rfl
    | freed _ _ _ unfreeing => cases unfreeing

theorem apply_retiring {op : SocketOp} {rest : List SocketOp} (h : Retiring owner k m w)
    (hidle : w.own t = .idle) (ht : t = owner) (hqueued : w.shared.ops = op :: rest) :
    ∃ m', Retiring owner k m' (w.move t (w.shared.applySocketOp rest op)) := by
  subst ht
  have hpending := h.pending
  have htoken := h.token
  have honce := h.once
  have hburial := h.burial
  rw [hqueued, hidle] at hpending
  rw [hqueued] at htoken
  rw [hidle] at hburial
  have hgo : ∀ (pc : Pc) (m' : Nat), pc.pushes = false → pc.inOp = true → pc.handle = none →
      pc.forwardsDestroy = false → pc.checks = false → pc.frees = false →
      Tallied Pc.digs (Function.update w.own t pc) m' →
      m' + rest.count .destroy = m + (op :: rest).count .destroy →
      Retiring t k m' (w.move t ({ w.shared with ops := rest }, pc)) := by
    intro pc m' hpushes hinOp hnone hplain hchecks hfrees hdigging hcount
    refine h.of_move (fun _ => rfl) ?_ (fun t' x _ hx => h.live t' x hx) hplain
      (h.pushing.same ?_) ?_ hdigging ?_ h.once h.zero h.held ?_
    · intro x hx
      rw [hnone] at hx
      cases hx
    · rw [hpushes, hidle]; rfl
    · rw [move_own_self, hinOp]
      simp only [List.length_cons, Pc.inOp, Bool.toNat_false, Bool.toNat_true] at hpending ⊢
      omega
    · dsimp only
      omega
    · rw [move_own_self]
      exact hburial.of_same rfl rfl rfl hchecks hfrees
  have hstill : ∀ pc : Pc, pc.digs = false →
      Tallied Pc.digs (Function.update w.own t pc) m := by
    intro pc hdigs
    refine h.digging.same ?_
    rw [hdigs, hidle]
    rfl
  cases op with
  | timeout timeoutMs =>
      have hcount : m + rest.count .destroy = m + (.timeout timeoutMs :: rest).count .destroy := by
        rw [List.count_cons_of_ne (by simp)]
      unfold Header.applySocketOp
      dsimp only
      split
      · exact ⟨m, hgo .opDone m rfl rfl rfl rfl rfl rfl (hstill _ rfl) hcount⟩
      · exact ⟨m, hgo (.opArm timeoutMs) m rfl rfl rfl rfl rfl rfl (hstill _ rfl) hcount⟩
  | shutdown =>
      have hcount : m + rest.count .destroy = m + (.shutdown :: rest).count .destroy := by
        rw [List.count_cons_of_ne (by simp)]
      unfold Header.applySocketOp
      dsimp only
      split
      · exact ⟨m, hgo .opDone m rfl rfl rfl rfl rfl rfl (hstill _ rfl) hcount⟩
      · exact ⟨m, hgo .opCancel m rfl rfl rfl rfl rfl rfl (hstill _ rfl) hcount⟩
  | destroy =>
      rw [List.count_cons_self] at htoken
      have hundone : w.shared.destroyed = false := by
        cases hd : w.shared.destroyed with
        | false => rfl
        | true =>
            rw [hd, Bool.toNat_true] at htoken
            omega
      unfold Header.applySocketOp
      dsimp only
      rw [if_neg (by simp [hundone])]
      refine ⟨m + 1, hgo (.tearCancel true) (m + 1) rfl rfl rfl rfl rfl rfl
        (h.digging.gain ?_ rfl) ?_⟩
      · rw [hidle]; rfl
      · rw [List.count_cons_self]
        omega

end End

/-! ## Runs -/

section Runs

variable {owner k m : Nat} {w w' : Workers} {t : Nat}

theorem Retiring.apart {r : Header × Pc} (h : Retiring owner k m w)
    (hr : Apart owner t w.shared (w.own t) r) : Retiring owner k m (w.move t r) := by
  refine h.still hr.ends hr.place hr.home ?_ hr.handles.ge hr.plain (.inl hr.count)
  rw [hr.handles]
  exact fun x hx => h.live t x (hr.handle x hx)

theorem Retiring.adds {pc : Pc} {s : Header} (h : Retiring owner k m w) (hcounted : Counted w)
    {x : Nat} (hx : (w.own t).handle = some x) (hends : SameEnd w.shared s)
    (hplace : SamePlace (w.own t) pc) (hhome : pc.ownerOnly = true → t = owner)
    (hhandle : ∀ y, pc.handle = some y → (w.own t).handle = some y)
    (hsub : w.shared.handles ⊆ s.handles) (hplain : pc.forwardsDestroy = false) :
    Retiring owner k m (w.move t (s, pc)) := by
  have hlive := h.live t x hx
  exact h.still hends hplace hhome (fun y hy => hsub (h.live t y (hhandle y hy))) hsub hplain
    (.inr ⟨hcounted (.inl ⟨x, hlive⟩), ⟨x, hsub hlive⟩⟩)

theorem Retiring.drops_timer (h : Retiring owner k m w) (hcounted : Counted w)
    (howns : (w.own t).ownsRef = true) (hplace : SamePlace (w.own t) .idle) :
    ∃ m', Retiring owner k m'
      (w.move t ({ w.shared with dropped := w.shared.dropped + 1 }.release owner t)) :=
  h.release (hcounted (.inr ⟨t, howns⟩)) (fun t' x _ hx => h.live t' x hx) hplace

theorem exec_retiring (h : Retiring owner k m w) (hcounted : Counted w) :
    ∃ k' m', Retiring owner k' m' (w.move t (exec owner t w.shared (w.own t))) := by
  by_cases hapart : (w.own t).apart = true
  · have hr := exec_apart (s := w.shared) hapart (h.home t)
    exact ⟨k, m, h.apart hr⟩
  · cases hpc : w.own t with
    | copy x =>
        refine ⟨k, m, h.adds hcounted (x := x) ?_ ⟨rfl, rfl, rfl, rfl, rfl⟩ ?_
          (fun hhome => Bool.noConfusion hhome) (by simp [Pc.handle])
          (Finset.subset_insert _ _) rfl⟩
        · rw [hpc]; rfl
        · rw [hpc]
          exact ⟨rfl, rfl, rfl, rfl, rfl⟩
    | setAddRef x timeoutMs =>
        have hx : (w.own t).handle = some x := by rw [hpc]; rfl
        have hplace : ∀ took, SamePlace (w.own t) (.setClear x timeoutMs took) := by
          intro took
          rw [hpc]
          exact ⟨rfl, rfl, rfl, rfl, rfl⟩
        rw [exec.eq_def]
        dsimp only
        split
        · exact ⟨k, m, h.adds hcounted hx ⟨rfl, rfl, rfl, rfl, rfl⟩ (hplace true)
            (fun hhome => Bool.noConfusion hhome) (fun _ hy => hx.trans hy)
            (Finset.Subset.refl _) rfl⟩
        · exact ⟨k, m, h.adds hcounted hx (.refl _) (hplace false)
            (fun hhome => Bool.noConfusion hhome) (fun _ hy => hx.trans hy)
            (Finset.Subset.refl _) rfl⟩
    | shutRelease x =>
        obtain ⟨m', hm⟩ := h.drops_timer hcounted (t := t) (by rw [hpc]; rfl) (by
          rw [hpc]
          exact ⟨rfl, rfl, rfl, rfl, rfl⟩)
        exact ⟨k, m', hm⟩
    | callbackRelease =>
        obtain ⟨m', hm⟩ := h.drops_timer hcounted (t := t) (by rw [hpc]; rfl) (by
          rw [hpc]
          exact ⟨rfl, rfl, rfl, rfl, rfl⟩)
        exact ⟨k, m', hm⟩
    | forwardCount x op hadTimer => exact ⟨k + 1, m, forwardCount_retiring h hcounted hpc⟩
    | forwardPush x op hadTimer =>
        obtain ⟨k', hk⟩ := forwardPush_retiring h hpc
        exact ⟨k', m, hk⟩
    | destroyCount => exact ⟨k + 1, m, destroyCount_retiring h hpc⟩
    | destroyPush => exact destroyPush_retiring h hpc
    | tearFlag forOp =>
        obtain ⟨m', hm⟩ := tearFlag_retiring h hpc
        exact ⟨k, m', hm⟩
    | tearCheck forOp => exact ⟨k, m, tearCheck_retiring h hpc⟩
    | opDone => exact ⟨k, m, opDone_retiring h hpc⟩
    | opFree => exact ⟨k, m, opFree_retiring h hpc⟩
    | _ =>
        rw [hpc] at hapart
        exact absurd rfl hapart

theorem step_retiring (h : Retiring owner k m w) (hcounted : Counted w)
    (hstep : Step owner w t w') : ∃ k' m', Retiring owner k' m' w' := by
  cases hstep with
  | call pc x timeoutMs idle live hpc =>
      refine ⟨k, m, h.still (.refl _) ?_ ?_ ?_ (Finset.Subset.refl _) ?_ (.inl rfl)⟩ <;>
        simp only [List.mem_cons, List.not_mem_nil, or_false] at hpc <;>
        rcases hpc with rfl | rfl | rfl | rfl <;>
        first
          | (rw [idle]; exact ⟨rfl, rfl, rfl, rfl, rfl⟩)
          | rfl
          | simp [Pc.ownerOnly]
          | simpa [Pc.handle] using live
  | drop x idle live unused =>
      have hothers : ∀ t' y, t' ≠ t → (w.own t').handle = some y →
          y ∈ w.shared.handles.erase x := by
        intro t' y _ hy
        refine Finset.mem_erase.mpr ⟨?_, h.live t' y hy⟩
        rintro rfl
        exact unused t' hy
      have hplace : SamePlace (w.own t) .idle := by
        rw [idle]
        exact ⟨rfl, rfl, rfl, rfl, rfl⟩
      have hne := hcounted (.inl ⟨x, live⟩)
      obtain ⟨m', hm⟩ : ∃ m', Retiring owner k m' (w.move t (w.shared.dropHandle owner t x)) :=
        h.release hne hothers hplace
      exact ⟨k, m', hm⟩
  | fire idle home armed =>
      refine ⟨k, m, h.apart ?_⟩
      rw [idle]
      exact .of_timer ⟨rfl, rfl, rfl, rfl, rfl⟩ ⟨rfl, rfl, rfl, rfl, rfl⟩ rfl rfl (fun _ => home)
        (by simp [Pc.handle]) rfl
  | apply op rest idle home queued =>
      obtain ⟨m', hm⟩ := apply_retiring h idle home queued
      exact ⟨k, m', hm⟩
  | exec busy => exact exec_retiring h hcounted

theorem retiring_new (owner : Nat) : Retiring owner 0 0 ⟨.new, fun _ => .idle⟩ := by
  refine ⟨?_, ?_, fun _ => rfl, tallied_zero_iff.mpr fun _ => rfl, rfl,
    tallied_zero_iff.mpr fun _ => rfl, rfl, by decide, ?_, ?_, .alive rfl rfl rfl⟩
  · simp [Pc.ownerOnly]
  · simp [Pc.handle]
  · simp [Header.new]
  · exact fun _ hzero => absurd hzero (by decide)

/-- In every run whose references are counted the header is on its way to the delete
queue, or in front of it. -/
theorem retiring_of_runs (h : Runs owner (fun w _ => Counted w) w) :
    ∃ k m, Retiring owner k m w := by
  refine h.holds (fun hw => ⟨0, 0, hw ▸ retiring_new owner⟩) fun _ ih hstep hcounted => ?_
  obtain ⟨k, m, hret⟩ := ih
  exact step_retiring hret hcounted hstep

theorem release_retired_le (owner t : Nat) (s : Header) :
    s.retired ≤ (s.release owner t).1.retired := by
  unfold Header.release
  split <;> exact Nat.le_refl _

theorem exec_retired_le (h : Retiring owner k m w) :
    w.shared.retired ≤ (exec owner t w.shared (w.own t)).1.retired := by
  by_cases hapart : (w.own t).apart = true
  · exact (exec_apart (s := w.shared) hapart (h.home t)).ends.retired.ge
  · cases hpc : w.own t with
    | copy | forwardCount | forwardPush | destroyCount | destroyPush => exact Nat.le_refl _
    | tearFlag | opDone => exact Nat.le_refl _
    | setAddRef =>
        rw [exec.eq_def]
        dsimp only
        split <;> exact Nat.le_refl _
    | shutRelease | callbackRelease =>
        exact release_retired_le owner t { w.shared with dropped := w.shared.dropped + 1 }
    | tearCheck | opFree => exact Nat.le_add_right _ _
    | _ =>
        rw [hpc] at hapart
        exact absurd rfl hapart

theorem step_retired_le (h : Retiring owner k m w) (hstep : Step owner w t w') :
    w.shared.retired ≤ w'.shared.retired := by
  cases hstep with
  | call | fire => exact Nat.le_refl _
  | drop x =>
      exact release_retired_le owner t { w.shared with handles := w.shared.handles.erase x }
  | apply op rest =>
      have hsame : (w.shared.applySocketOp rest op).1.retired = w.shared.retired := by
        cases op <;> rfl
      exact hsame.ge
  | exec => exact exec_retired_le h

/-- How the header gets to the delete queue.  `applied` says that the owner neither has an
operation nor will get one once the header is there. -/
structure FreedOnce (owner : Nat) (w : Workers) : Prop where
  once : w.shared.retired ≤ 1
  behind : w.shared.retired = 1 → w.shared.destroyed = true ∧ w.shared.pendingOps = 0
  applied : w.shared.retired = 1 → w.shared.ops = [] ∧ ∀ t, (w.own t).inOp = false
  stays : ∀ t w', Step owner w t w' → w.shared.retired ≤ w'.shared.retired
  exactly : Quiet w → w.shared.ops = [] → w.shared.handles = ∅ →
    countOf w.shared.state = 0 → w.shared.retired = 1

theorem Retiring.behind (h : Retiring owner k m w) (hfreed : w.shared.retired = 1) :
    w.shared.destroyed = true ∧ w.shared.pendingOps = 0 := by
  cases h.burial with
  | alive _ unfreed | checking _ unfreed | pending _ unfreed | freeing _ unfreed => omega
  | freed done _ _ _ nothing => exact ⟨done, nothing⟩

theorem inOp_ownerOnly {pc : Pc} (h : pc.inOp = true) : pc.ownerOnly = true := by
  cases pc <;> first | rfl | cases h

theorem Retiring.applied (h : Retiring owner k m w) (hfreed : w.shared.retired = 1) :
    w.shared.ops = [] ∧ ∀ t, (w.own t).inOp = false := by
  have hpending := h.pending
  rw [(h.behind hfreed).2] at hpending
  refine ⟨List.length_eq_zero_iff.mp (by omega), fun t => ?_⟩
  cases hin : (w.own t).inOp with
  | false => rfl
  | true =>
      obtain rfl := h.home t (inOp_ownerOnly hin)
      rw [hin, Bool.toNat_true] at hpending
      omega

theorem Retiring.exactly (h : Retiring owner k m w) (hquiet : Quiet w)
    (hops : w.shared.ops = []) (hnone : w.shared.handles = ∅)
    (hzero : countOf w.shared.state = 0) : w.shared.retired = 1 := by
  have hpending := h.pending
  have htoken := h.token
  have honce := h.once
  have hdigging : m = 0 := hquiet.tally_eq h.digging rfl
  have hpushing : k = 0 := hquiet.tally_eq h.pushing rfl
  have hbegun : w.shared.destroys ≠ 0 := by
    intro hdestroys
    have hheld := h.held hdestroys hzero
    rw [hnone] at hheld
    exact Finset.not_nonempty_empty hheld
  rw [hops, List.count_nil] at htoken
  rw [hops, hquiet owner, List.length_nil] at hpending
  have hburial := h.burial
  rw [hquiet owner] at hburial
  cases hburial with
  | alive undone =>
      rw [undone, Bool.toNat_false] at htoken
      omega
  | checking _ _ checks => cases checks
  | pending _ _ _ _ pending =>
      simp only [Pc.inOp, Bool.toNat_false] at hpending
      omega
  | freeing _ _ frees => cases frees
  | freed _ freed => exact freed

/-- In every run in which whoever has a reference finds it counted the header is freed
once, behind its teardown and all operations. -/
theorem freedOnce_of_countedRuns (h : Runs owner (fun w _ => Counted w) w) :
    FreedOnce owner w := by
  obtain ⟨k, m, hret⟩ := retiring_of_runs h
  refine ⟨?_, hret.behind, hret.applied, fun _ _ => step_retired_le hret, hret.exactly⟩
  cases hret.burial with
  | alive _ unfreed | checking _ unfreed | pending _ unfreed | freeing _ unfreed => omega
  | freed _ freed => omega

theorem counted_of_careful (h : Runs owner Careful w) : Counted w := by
  obtain ⟨n, htally, hcount⟩ := (conserved_of_careful h).counted
  rintro (hhandles | ⟨t, ht⟩)
  · have := Finset.card_pos.mpr hhandles
    omega
  · have := htally.pos ht
    omega

theorem countedRuns_of_careful (h : Runs owner Careful w) :
    Runs owner (fun w _ => Counted w) w :=
  h.holds (fun hw => .start hw) fun hw ih hstep _ => ih.step hstep (counted_of_careful hw)

structure Unowned (w : Workers) : Prop where
  handles : w.shared.handles = ∅
  owns : ∀ t, (w.own t).ownsRef = false

theorem Unowned.counted (h : Unowned w) : Counted w := by
  rintro (hhandles | ⟨t, ht⟩)
  · rw [h.handles] at hhandles
    exact absurd hhandles Finset.not_nonempty_empty
  · rw [h.owns t] at ht
    cases ht

theorem Unowned.move {r : Header × Pc} (h : Unowned w) (hhandles : r.1.handles = ∅)
    (howns : r.2.ownsRef = false) : Unowned (w.move t r) := by
  refine ⟨hhandles, fun t' => ?_⟩
  by_cases htt : t' = t
  · subst htt
    rw [move_own_self]
    exact howns
  · rw [move_own_of_ne htt]
    exact h.owns t'

def advanceOwner (w : Workers) : Workers := w.move 0 (exec 0 0 w.shared (w.own 0))

def applyNext (w : Workers) : Workers :=
  match w.shared.ops with
  | [] => w
  | op :: rest => w.move 0 (w.shared.applySocketOp rest op)

/-- Worker 1 forwards a `Shutdown`, drops the last reference and forwards the `Destroy`. -/
def dropped : Workers :=
  let forwarded := advance (advance (advance
    (Workers.move ⟨.new, fun _ => .idle⟩ 1 (.new, .shutLoad 0))))
  forwarded.move 1 (forwarded.shared.dropHandle 0 1 0)

def buried : Workers :=
  let shut := advanceOwner (advanceOwner (applyNext (advance (advance (advance dropped)))))
  advanceOwner (advanceOwner (advanceOwner (advanceOwner (advanceOwner (advanceOwner
    (applyNext shut))))))

theorem countedRuns_dropped : Runs 0 (fun w _ => Counted w) dropped ∧ Unowned dropped := by
  have hcount : countOf initialState ≠ 0 := by decide
  have hstart : Runs 0 (fun w _ => Counted w) ⟨.new, fun _ => .idle⟩ := .start rfl
  have hcall := hstart.step (e := 1)
    (.call (.shutLoad 0) 0 0 rfl (by decide) (by simp)) fun _ => hcount
  have hload := runs_advance hcall (fun _ => hcount) (by decide)
  have hpush := runs_advance (runs_advance hload (fun _ => hcount) (by decide))
    (fun _ => hcount) (by decide)
  have hothers : ∀ t, t ≠ 1 →
      (advance (advance (advance
        (Workers.move ⟨.new, fun _ => .idle⟩ 1 (.new, .shutLoad 0))))).own t = .idle := by
    intro t ht
    simp [advance, move_own_of_ne ht]
  refine ⟨hpush.step (e := 1) (.drop 0 rfl (by decide) fun t => ?_) fun _ => hcount, by decide,
    fun t => ?_⟩
  · by_cases ht : t = 1
    · subst ht
      decide
    · rw [hothers t ht]
      simp [Pc.handle]
  · by_cases ht : t = 1
    · subst ht
      decide
    · unfold dropped
      rw [move_own_of_ne ht, hothers t ht]
      rfl

theorem countedRuns_exec (h : Runs 0 (fun w _ => Counted w) w ∧ Unowned w)
    (hbusy : w.own t ≠ .idle) (hhandles : (exec 0 t w.shared (w.own t)).1.handles = ∅)
    (howns : (exec 0 t w.shared (w.own t)).2.ownsRef = false) :
    Runs 0 (fun w _ => Counted w) (w.move t (exec 0 t w.shared (w.own t))) ∧
      Unowned (w.move t (exec 0 t w.shared (w.own t))) :=
  ⟨h.1.step (.exec hbusy) h.2.counted, h.2.move hhandles howns⟩

theorem countedRuns_apply {op : SocketOp} {rest : List SocketOp}
    (h : Runs 0 (fun w _ => Counted w) w ∧ Unowned w) (hidle : w.own 0 = .idle)
    (hqueued : w.shared.ops = op :: rest)
    (hhandles : (w.shared.applySocketOp rest op).1.handles = ∅)
    (howns : (w.shared.applySocketOp rest op).2.ownsRef = false) :
    Runs 0 (fun w _ => Counted w) (applyNext w) ∧ Unowned (applyNext w) := by
  unfold applyNext
  rw [hqueued]
  exact ⟨h.1.step (.apply op rest hidle rfl hqueued) h.2.counted, h.2.move hhandles howns⟩

theorem buried_freedOnce : buried.shared.retired = 1 ∧ FreedOnce 0 buried := by
  have hmark := countedRuns_exec (t := 1) countedRuns_dropped (by decide) (by decide) (by decide)
  have hcount := countedRuns_exec (t := 1) hmark (by decide) (by decide) (by decide)
  have hpush := countedRuns_exec (t := 1) hcount (by decide) (by decide) (by decide)
  have hshut := countedRuns_apply hpush (by decide) rfl (by decide) (by decide)
  have hcancel := countedRuns_exec (t := 0) hshut (by decide) (by decide) (by decide)
  have hdone := countedRuns_exec (t := 0) hcancel (by decide) (by decide) (by decide)
  have hdestroy := countedRuns_apply hdone (by decide) rfl (by decide) (by decide)
  have htimer := countedRuns_exec (t := 0) hdestroy (by decide) (by decide) (by decide)
  have hclose := countedRuns_exec (t := 0) htimer (by decide) (by decide) (by decide)
  have hflag := countedRuns_exec (t := 0) hclose (by decide) (by decide) (by decide)
  have hcheck := countedRuns_exec (t := 0) hflag (by decide) (by decide) (by decide)
  have hlast := countedRuns_exec (t := 0) hcheck (by decide) (by decide) (by decide)
  have hfree := countedRuns_exec (t := 0) hlast (by decide) (by decide) (by decide)
  exact ⟨by decide, freedOnce_of_countedRuns hfree.1⟩

end Runs

end Uvent.Net.Forwarding
