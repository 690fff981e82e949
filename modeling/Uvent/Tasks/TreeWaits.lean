import Uvent.Lib.Forest
import Uvent.Tasks.TreeWalks

/-!
# Awaiters of a cancellation

An awaiter looks at the flag behind its registration, and whoever sets the flag looks into
the list behind that.
-/

namespace Uvent.Tasks.CancelTree

open Uvent.Lib Uvent.Sync
open Uvent.Net.StateWord (Build)

def Point.wakes : Point → Bool
  | .wakeCheck | .wakeAll => true
  | _ => false

def AwaitPc.armed : AwaitPc → Bool
  | .arm | .withdraw | .parked => true
  | _ => false

def Wakeful (s : State) (n : Nat) : Prop :=
  ∃ t, ∃ f ∈ (s.threads t).stack, f.node = n ∧ f.point.wakes = true

structure Waits (s : State) : Prop where
  member : ∀ j n, j ∈ s.cancelWaiters n ↔
    (s.awaiter j).node = n ∧ (s.awaiter j).pc.listed = true ∧ (s.awaiter j).fired = false
  nodup : ∀ n, (s.cancelWaiters n).Nodup
  fired : ∀ j, (s.awaiter j).fired = true → (s.awaiter j).pc.listed = true
  resumed : ∀ j, (s.awaiter j).resumed = true → (s.awaiter j).fired = true
  awake : ∀ j, (s.awaiter j).fired = false → (s.awaiter j).pc.armed = true →
    s.requested (s.awaiter j).node = true → Wakeful s (s.awaiter j).node

section Waits

variable {s s' x : State} {t n j : Nat} {th old : Thread}

theorem armed_listed {pc : AwaitPc} (h : pc.armed = true) : pc.listed = true := by
  cases pc with
  | arm | withdraw | parked => rfl
  | unused | ready | begin | push | check | undo | ended => cases h

theorem wakeful_goto (hx : x.threads = s.threads)
    (hkeep : ∀ f ∈ (s.threads t).stack, f.point.wakes = true → f ∈ th.stack)
    (h : Wakeful s n) : Wakeful (x.goto t th) n := by
  obtain ⟨t', f, hf, hnode, hpoint⟩ := h
  refine ⟨t', f, ?_, hnode, hpoint⟩
  by_cases ht : t' = t
  · subst ht
    rw [show (x.goto t' th).threads t' = th from Function.update_self ..]
    exact hkeep f hf hpoint
  · rw [show (x.goto t th).threads t' = s.threads t' from hx ▸ Function.update_of_ne ht ..]
    exact hf

theorem wakeful_of_stack (hstack : ∀ t, (s'.threads t).stack = (s.threads t).stack)
    (h : Wakeful s n) : Wakeful s' n := by
  obtain ⟨t', f, hf, hnode, hpoint⟩ := h
  exact ⟨t', f, hstack t' ▸ hf, hnode, hpoint⟩

theorem Waits.of_same (h : Waits s) (hwaiters : s'.cancelWaiters = s.cancelWaiters)
    (hawaiter : s'.awaiter = s.awaiter)
    (hawake : ∀ j, (s.awaiter j).fired = false → (s.awaiter j).pc.armed = true →
      s'.requested (s.awaiter j).node = true →
        (s.requested (s.awaiter j).node = true → Wakeful s (s.awaiter j).node) →
          Wakeful s' (s.awaiter j).node) : Waits s' := by
  refine ⟨?_, ?_, ?_, ?_, ?_⟩
  · rw [hwaiters, hawaiter]
    exact h.member
  · rw [hwaiters]
    exact h.nodup
  · rw [hawaiter]
    exact h.fired
  · rw [hawaiter]
    exact h.resumed
  · rw [hawaiter]
    intro j hfired harmed hreq
    exact hawake j hfired harmed hreq (h.awake j hfired harmed)

theorem Waits.pass (h : Waits s) (hwaiters : s'.cancelWaiters = s.cancelWaiters)
    (hawaiter : s'.awaiter = s.awaiter) (hreq : s'.requested = s.requested)
    (hwake : ∀ n, Wakeful s n → Wakeful s' n) : Waits s' := by
  refine h.of_same hwaiters hawaiter fun j _ _ hnode hbefore => hwake _ (hbefore ?_)
  rw [← hreq]
  exact hnode

theorem Waits.of_one (h : Waits s) (hreq : s'.requested = s.requested)
    (hthreads : s'.threads = s.threads)
    (hothers : ∀ j', j' ≠ j → s'.awaiter j' = s.awaiter j')
    (hlists : ∀ n j', j' ≠ j → (j' ∈ s'.cancelWaiters n ↔ j' ∈ s.cancelWaiters n))
    (hnodup : ∀ n, (s'.cancelWaiters n).Nodup)
    (hmember : ∀ n, j ∈ s'.cancelWaiters n ↔
      (s'.awaiter j).node = n ∧ (s'.awaiter j).pc.listed = true ∧ (s'.awaiter j).fired = false)
    (hfired : (s'.awaiter j).fired = true → (s'.awaiter j).pc.listed = true)
    (hresumed : (s'.awaiter j).resumed = true → (s'.awaiter j).fired = true)
    (hawake : (s'.awaiter j).fired = false → (s'.awaiter j).pc.armed = true →
      s.requested (s'.awaiter j).node = true → Wakeful s (s'.awaiter j).node) : Waits s' := by
  have hwake : ∀ n, Wakeful s n → Wakeful s' n := by
    intro n
    unfold Wakeful
    rw [hthreads]
    exact id
  refine ⟨?_, hnodup, ?_, ?_, ?_⟩
  · intro j' n
    by_cases hj : j' = j
    · subst hj
      exact hmember n
    · rw [hlists n j' hj, hothers j' hj]
      exact h.member j' n
  · intro j'
    by_cases hj : j' = j
    · subst hj
      exact hfired
    · rw [hothers j' hj]
      exact h.fired j'
  · intro j'
    by_cases hj : j' = j
    · subst hj
      exact hresumed
    · rw [hothers j' hj]
      exact h.resumed j'
  · intro j' hf ha hr
    rw [hreq] at hr
    by_cases hj : j' = j
    · subst hj
      exact hwake _ (hawake hf ha hr)
    · rw [hothers j' hj] at hf ha hr ⊢
      exact hwake _ (h.awake j' hf ha hr)

theorem Waits.walks (h : Waits s) {a : Awaiter} (hold : (s.awaiter j).pc.listed = false)
    (hnew : a.pc.listed = false) (hfired : a.fired = false) (hresumed : a.resumed = false) :
    Waits (s.setAwaiter j a) := by
  have hself : (s.setAwaiter j a).awaiter j = a := Function.update_self ..
  have hout : ∀ n, j ∉ s.cancelWaiters n := by
    intro n hin
    rw [((h.member j n).mp hin).2.1] at hold
    cases hold
  refine h.of_one (j := j) rfl rfl (fun j' hj => Function.update_of_ne hj ..) (fun _ _ _ => Iff.rfl)
    h.nodup ?_ ?_ ?_ ?_
  · intro n
    rw [hself, hnew]
    exact iff_of_false (hout n) (fun hc => by cases hc.2.1)
  · rw [hself, hfired]
    exact nofun
  · rw [hself, hresumed]
    exact nofun
  · rw [hself]
    intro _ harmed
    rw [armed_listed harmed] at hnew
    cases hnew

theorem Waits.stays (h : Waits s) {a : Awaiter} (hold : (s.awaiter j).pc.listed = true)
    (hnode : a.node = (s.awaiter j).node) (hnew : a.pc.listed = true)
    (hfired : a.fired = (s.awaiter j).fired) (hresumed : a.resumed = true → a.fired = true)
    (hawake : a.fired = false → a.pc.armed = true → s.requested (s.awaiter j).node = true →
      Wakeful s (s.awaiter j).node) : Waits (s.setAwaiter j a) := by
  have hself : (s.setAwaiter j a).awaiter j = a := Function.update_self ..
  refine h.of_one (j := j) rfl rfl (fun j' hj => Function.update_of_ne hj ..) (fun _ _ _ => Iff.rfl)
    h.nodup ?_ ?_ ?_ ?_
  · intro n
    have hmember := h.member j n
    rw [hold] at hmember
    rw [hself, hnode, hfired, hnew]
    exact hmember
  · rw [hself]
    exact fun _ => hnew
  · rw [hself]
    exact hresumed
  · rw [hself, hnode]
    exact hawake

/-- The node of `j` comes out of its list. -/
theorem mem_removed (m j' : Nat) (hj : j' ≠ j) :
    j' ∈ Function.update s.cancelWaiters (s.awaiter j).node
      ((s.cancelWaiters (s.awaiter j).node).removeLocked j).2 m ↔ j' ∈ s.cancelWaiters m := by
  by_cases hm : m = (s.awaiter j).node
  · subst hm
    rw [Function.update_self]
    exact List.mem_erase_of_ne hj
  · rw [Function.update_of_ne hm]

theorem nodup_removed (h : Waits s) (m : Nat) :
    (Function.update s.cancelWaiters (s.awaiter j).node
      ((s.cancelWaiters (s.awaiter j).node).removeLocked j).2 m).Nodup := by
  by_cases hm : m = (s.awaiter j).node
  · subst hm
    rw [Function.update_self]
    exact (h.nodup _).erase j
  · rw [Function.update_of_ne hm]
    exact h.nodup m

theorem not_mem_removed (h : Waits s) (m : Nat) :
    j ∉ Function.update s.cancelWaiters (s.awaiter j).node
      ((s.cancelWaiters (s.awaiter j).node).removeLocked j).2 m := by
  by_cases hm : m = (s.awaiter j).node
  · subst hm
    rw [Function.update_self]
    exact (h.nodup _).not_mem_erase
  · rw [Function.update_of_ne hm]
    intro hin
    exact hm ((h.member j m).mp hin).1.symm

/-- An awaiter that detaches was in the list, or was fired. -/
theorem detach_waits (h : Waits s) (hlisted : (s.awaiter j).pc.listed = true) :
    Waits (s.detach j) := by
  unfold State.detach
  by_cases hin : j ∈ s.cancelWaiters (s.awaiter j).node
  · have hunfired := ((h.member j _).mp hin).2.2
    have htaken : ((s.cancelWaiters (s.awaiter j).node).removeLocked j).1 = true :=
      decide_eq_true hin
    have hself : ((s.setWaiters (s.awaiter j).node
        ((s.cancelWaiters (s.awaiter j).node).removeLocked j).2).setAwaiter j
          { s.awaiter j with pc :=
            if ((s.cancelWaiters (s.awaiter j).node).removeLocked j).1 then .ended
            else .parked }).awaiter j = { s.awaiter j with pc := .ended } := by
      refine (Function.update_self ..).trans ?_
      rw [if_pos htaken]
    refine h.of_one (j := j) rfl rfl (fun j' hj => Function.update_of_ne hj ..)
      (fun m j' hj => mem_removed m j' hj) (nodup_removed h) ?_ ?_ ?_ ?_
    · intro m
      rw [hself]
      exact iff_of_false (not_mem_removed h m) (fun hc => by cases hc.2.1)
    · rw [hself]
      intro hfired
      rw [show (s.awaiter j).fired = true from hfired] at hunfired
      cases hunfired
    · rw [hself]
      exact h.resumed j
    · rw [hself]
      intro _ harmed
      cases harmed
  · have hfired : (s.awaiter j).fired = true := by
      by_contra hnot
      exact hin ((h.member j _).mpr ⟨rfl, hlisted, Bool.eq_false_iff.mpr hnot⟩)
    have hsame : (s.cancelWaiters (s.awaiter j).node).removeLocked j =
        (false, s.cancelWaiters (s.awaiter j).node) := by
      unfold WaitList.removeLocked
      rw [List.erase_of_not_mem hin, decide_eq_false hin]
    have hlist : s.setWaiters (s.awaiter j).node (s.cancelWaiters (s.awaiter j).node) = s := by
      unfold State.setWaiters
      rw [Function.update_eq_self]
    rw [hsame, hlist]
    refine h.stays hlisted rfl rfl rfl (fun _ => hfired) fun hunfired => ?_
    rw [show (s.awaiter j).fired = false from hunfired] at hfired
    cases hfired

theorem push_waits (h : Waits s) (hpc : (s.awaiter j).pc = .push) :
    Waits ((s.setWaiters (s.awaiter j).node
      ((s.cancelWaiters (s.awaiter j).node).pushLocked j)).setAwaiter j
        { s.awaiter j with pc := .check }) := by
  have hold : (s.awaiter j).pc.listed = false := by rw [hpc]; rfl
  have hout : ∀ n, j ∉ s.cancelWaiters n := by
    intro n hin
    rw [((h.member j n).mp hin).2.1] at hold
    cases hold
  have hunfired : (s.awaiter j).fired = false := by
    refine Bool.eq_false_iff.mpr fun hfired => ?_
    rw [h.fired j hfired] at hold
    cases hold
  have hself : ((s.setWaiters (s.awaiter j).node
      ((s.cancelWaiters (s.awaiter j).node).pushLocked j)).setAwaiter j
        { s.awaiter j with pc := .check }).awaiter j = { s.awaiter j with pc := .check } :=
    Function.update_self ..
  have hlist : ∀ m j', j' ∈ Function.update s.cancelWaiters (s.awaiter j).node
      ((s.cancelWaiters (s.awaiter j).node).pushLocked j) m ↔
        j' ∈ s.cancelWaiters m ∨ (m = (s.awaiter j).node ∧ j' = j) := by
    intro m j'
    by_cases hm : m = (s.awaiter j).node
    · subst hm
      rw [Function.update_self]
      simp [WaitList.pushLocked]
    · rw [Function.update_of_ne hm]
      simp [hm]
  refine h.of_one (j := j) rfl rfl (fun j' hj => Function.update_of_ne hj ..) ?_ ?_ ?_ ?_ ?_ ?_
  · intro m j' hj
    exact (hlist m j').trans (or_iff_left fun hc => hj hc.2)
  · intro m
    show (Function.update s.cancelWaiters (s.awaiter j).node
      ((s.cancelWaiters (s.awaiter j).node).pushLocked j) m).Nodup
    by_cases hm : m = (s.awaiter j).node
    · subst hm
      rw [Function.update_self]
      exact (h.nodup _).append (List.nodup_singleton j) (by simpa using hout _)
    · rw [Function.update_of_ne hm]
      exact h.nodup m
  · intro m
    rw [hself]
    refine (hlist m j).trans ?_
    constructor
    · rintro (hin | ⟨rfl, -⟩)
      · exact absurd hin (hout m)
      · exact ⟨rfl, rfl, hunfired⟩
    · rintro ⟨rfl, -⟩
      exact .inr ⟨rfl, rfl⟩
  · rw [hself]
    exact fun _ => rfl
  · rw [hself]
    exact h.resumed j
  · rw [hself]
    intro _ harmed
    cases harmed

theorem suspend_waits (h : Waits s) (j : Nat) (cancelled : Bool) :
    Waits (s.suspend j cancelled) := by
  have hquiet : (s.awaiter j).pc.listed = false →
      (s.awaiter j).fired = false ∧ (s.awaiter j).resumed = false := by
    intro hout
    have hunfired : (s.awaiter j).fired = false := by
      refine Bool.eq_false_iff.mpr fun hfired => ?_
      rw [h.fired j hfired] at hout
      cases hout
    refine ⟨hunfired, Bool.eq_false_iff.mpr fun hresumed => ?_⟩
    rw [h.resumed j hresumed] at hunfired
    cases hunfired
  unfold State.suspend
  cases hpc : (s.awaiter j).pc with
  | unused | parked | ended => exact h
  | ready =>
      have hout : (s.awaiter j).pc.listed = false := by rw [hpc]; rfl
      obtain ⟨hunfired, hunresumed⟩ := hquiet hout
      refine h.walks hout ?_ hunfired hunresumed
      dsimp only
      split <;> rfl
  | begin =>
      have hout : (s.awaiter j).pc.listed = false := by rw [hpc]; rfl
      obtain ⟨hunfired, hunresumed⟩ := hquiet hout
      refine h.walks hout ?_ hunfired hunresumed
      dsimp only
      split <;> rfl
  | push => exact push_waits h hpc
  | check =>
      have hin : (s.awaiter j).pc.listed = true := by rw [hpc]; rfl
      dsimp only
      cases hreq : s.requested (s.awaiter j).node with
      | true =>
          refine h.stays hin rfl rfl rfl (h.resumed j) ?_
          intro _ harmed
          cases harmed
      | false =>
          refine h.stays hin rfl rfl rfl (h.resumed j) ?_
          intro _ _ hcontra
          rw [hreq] at hcontra
          cases hcontra
  | arm =>
      have hin : (s.awaiter j).pc.listed = true := by rw [hpc]; rfl
      have harmed : (s.awaiter j).pc.armed = true := by rw [hpc]; rfl
      refine h.stays hin rfl ?_ rfl (h.resumed j) ?_
      · dsimp only
        split <;> rfl
      · exact fun hunfired _ hreq => h.awake j hunfired harmed hreq
  | undo =>
      refine detach_waits h ?_
      rw [hpc]
      rfl
  | withdraw =>
      refine detach_waits h ?_
      rw [hpc]
      rfl

theorem runCancelHook_waits (h : Waits s) (hpc : (s.awaiter j).pc = .parked) :
    Waits (s.runCancelHook j) := by
  have hlisted : (s.awaiter j).pc.listed = true := by rw [hpc]; rfl
  unfold State.runCancelHook
  split
  · have hself : ((s.setWaiters (s.awaiter j).node
        ((s.cancelWaiters (s.awaiter j).node).removeLocked j).2).setAwaiter j
          { s.awaiter j with fired := true }).awaiter j = { s.awaiter j with fired := true } :=
      Function.update_self ..
    refine h.of_one (j := j) rfl rfl (fun j' hj => Function.update_of_ne hj ..)
      (fun m j' hj => mem_removed m j' hj) (nodup_removed h) ?_ ?_ ?_ ?_
    · intro m
      rw [hself]
      exact iff_of_false (not_mem_removed h m) (fun hc => by cases hc.2.2)
    · rw [hself]
      exact fun _ => hlisted
    · rw [hself]
      exact fun _ => rfl
    · rw [hself]
      exact nofun
  · exact h

theorem onCancel_waits (h : Waits s) (unused : (s.awaiter j).pc = .unused) :
    Waits (s.setAwaiter j ⟨n, .ready, false, false⟩) :=
  h.walks (by rw [unused]; rfl) rfl rfl rfl

theorem resume_waits (h : Waits s) (fired : (s.awaiter j).fired = true) :
    Waits (s.setAwaiter j { s.awaiter j with resumed := true }) := by
  have hlisted := h.fired j fired
  refine h.stays hlisted rfl hlisted rfl (fun _ => fired) fun hunfired => ?_
  rw [show (s.awaiter j).fired = false from hunfired] at fired
  cases fired

theorem wakeAll_waits (h : Waits s) {below : List Frame} (hchain : Chained (s.threads t).stack)
    (pc : s.threads t = .cancelling (⟨n, .wakeAll⟩ :: below)) :
    Waits ((s.wakeAll n).goto t (.cancelling (⟨n, .kickLoad⟩ :: below))) := by
  have hstack : (s.threads t).stack = ⟨n, .wakeAll⟩ :: below := by rw [pc]; rfl
  have hfired : ∀ j, j ∈ s.cancelWaiters n →
      (s.wakeAll n).awaiter j = { s.awaiter j with fired := true } := fun j hj => if_pos hj
  have hothers : ∀ j, j ∉ s.cancelWaiters n → (s.wakeAll n).awaiter j = s.awaiter j :=
    fun j hj => if_neg hj
  have hlist : ∀ m, m ≠ n → (s.wakeAll n).cancelWaiters m = s.cancelWaiters m :=
    fun m hm => Function.update_of_ne hm ..
  have hempty : (s.wakeAll n).cancelWaiters n = [] := Function.update_self ..
  have hwaiters : ((s.wakeAll n).goto t (.cancelling (⟨n, .kickLoad⟩ :: below))).cancelWaiters =
      (s.wakeAll n).cancelWaiters := rfl
  have hawaiter : ((s.wakeAll n).goto t (.cancelling (⟨n, .kickLoad⟩ :: below))).awaiter =
      (s.wakeAll n).awaiter := rfl
  refine ⟨?_, ?_, ?_, ?_, ?_⟩
  · intro j m
    rw [hwaiters, hawaiter]
    by_cases hj : j ∈ s.cancelWaiters n
    · rw [hfired j hj]
      refine iff_of_false ?_ (fun hc => by cases hc.2.2)
      by_cases hm : m = n
      · subst hm
        rw [hempty]
        exact List.not_mem_nil
      · rw [hlist m hm]
        intro hin
        exact hm (((h.member j m).mp hin).1.symm.trans ((h.member j n).mp hj).1)
    · rw [hothers j hj]
      by_cases hm : m = n
      · subst hm
        rw [hempty]
        exact iff_of_false List.not_mem_nil fun hc => hj ((h.member j m).mpr hc)
      · rw [hlist m hm]
        exact h.member j m
  · intro m
    rw [hwaiters]
    by_cases hm : m = n
    · subst hm
      rw [hempty]
      exact List.nodup_nil
    · rw [hlist m hm]
      exact h.nodup m
  · intro j
    rw [hawaiter]
    by_cases hj : j ∈ s.cancelWaiters n
    · rw [hfired j hj]
      exact fun _ => ((h.member j n).mp hj).2.1
    · rw [hothers j hj]
      exact h.fired j
  · intro j
    rw [hawaiter]
    by_cases hj : j ∈ s.cancelWaiters n
    · rw [hfired j hj]
      exact fun _ => rfl
    · rw [hothers j hj]
      exact h.resumed j
  · intro j
    rw [hawaiter]
    by_cases hj : j ∈ s.cancelWaiters n
    · rw [hfired j hj]
      exact nofun
    · rw [hothers j hj]
      intro hunfired harmed hreq
      have hne : (s.awaiter j).node ≠ n := by
        intro hnode
        exact hj ((h.member j n).mpr ⟨hnode, armed_listed harmed, hunfired⟩)
      obtain ⟨t', f, hf, hnode, hpoint⟩ := h.awake j hunfired harmed hreq
      refine ⟨t', f, ?_, hnode, hpoint⟩
      by_cases ht : t' = t
      · subst ht
        rw [show ((s.wakeAll n).goto t' (.cancelling (⟨n, .kickLoad⟩ :: below))).threads t' =
          .cancelling (⟨n, .kickLoad⟩ :: below) from Function.update_self ..]
        rw [hstack] at hf
        rcases List.mem_cons.mp hf with rfl | hf
        · exact absurd hnode.symm hne
        · exact List.mem_cons_of_mem _ hf
      · rw [show ((s.wakeAll n).goto t (.cancelling (⟨n, .kickLoad⟩ :: below))).threads t' =
          s.threads t' from Function.update_of_ne ht ..]
        exact hf

theorem wakeCheck_waits (h : Waits s) {below : List Frame}
    (pc : s.threads t = .cancelling (⟨n, .wakeCheck⟩ :: below)) :
    Waits (s.goto t (.cancelling
      (⟨n, if (s.cancelWaiters n).emptyRelaxed then .kickLoad else .wakeAll⟩ :: below))) := by
  have hstack : (s.threads t).stack = ⟨n, .wakeCheck⟩ :: below := by rw [pc]; rfl
  refine h.of_same rfl rfl fun j hunfired harmed hreq hbefore => ?_
  obtain ⟨t', f, hf, hnode, hpoint⟩ := hbefore hreq
  by_cases ht : t' = t
  · subst ht
    rw [hstack] at hf
    rcases List.mem_cons.mp hf with rfl | hf
    · have hin : j ∈ s.cancelWaiters n :=
        (h.member j n).mpr ⟨hnode.symm, armed_listed harmed, hunfired⟩
      have hempty : (s.cancelWaiters n).emptyRelaxed = false := by
        cases hl : s.cancelWaiters n with
        | nil =>
            rw [hl] at hin
            cases hin
        | cons => rfl
      refine ⟨t', ⟨n, .wakeAll⟩, ?_, hnode, rfl⟩
      rw [hempty]
      rw [show (s.goto t' (.cancelling (⟨n, if false = true then .kickLoad else .wakeAll⟩ ::
        below))).threads t' = .cancelling (⟨n, .wakeAll⟩ :: below) from Function.update_self ..]
      exact List.mem_cons_self
    · refine ⟨t', f, ?_, hnode, hpoint⟩
      rw [show (s.goto t' (.cancelling (⟨n, if (s.cancelWaiters n).emptyRelaxed then .kickLoad
        else .wakeAll⟩ :: below))).threads t' = .cancelling (⟨n,
          if (s.cancelWaiters n).emptyRelaxed then .kickLoad else .wakeAll⟩ :: below) from
        Function.update_self ..]
      exact List.mem_cons_of_mem _ hf
  · refine ⟨t', f, ?_, hnode, hpoint⟩
    rw [show (s.goto t (.cancelling (⟨n, if (s.cancelWaiters n).emptyRelaxed then .kickLoad
      else .wakeAll⟩ :: below))).threads t' = s.threads t' from Function.update_of_ne ht ..]
    exact hf

end Waits

end Uvent.Tasks.CancelTree
