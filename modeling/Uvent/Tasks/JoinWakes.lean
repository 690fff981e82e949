import Uvent.Tasks.JoinCounts

/-!
# Joins and their wakeups

A suspended coroutine is in the list it went into, or in a run queue.  Who lowers a count to
zero, or sets a status, looks at the list behind that; who registers looks at the count, or
the status, behind its registration.
-/

namespace Uvent.Tasks.Joins

open Uvent.Lib Uvent.Sync
open Uvent.Net.StateWord (Build)

def Wakes (n : Nat) : Phase → Await → Prop
  | .draining m, .scope m' | .waking m, .scope m' => m = m'
  | .done, .handle n' | .wakingDone, .handle n' => n = n'
  | _, _ => False

def Coroutine.due (c : Coroutine) (a : Await) : Prop :=
  c.pc.node = some a ∧ (c.queued ≠ 0 ∨ c.pc = .remove a)

structure Waits (s : State) : Prop where
  member : ∀ j a, j ∈ s.waiters a ↔ (s.co j).pc.node = some a ∧ (s.co j).queued = 0
  nodup : ∀ a, (s.waiters a).Nodup
  single : ∀ j, (s.co j).queued ≤ (s.co j).pc.node.isSome.toNat
  zeroed : ∀ j m, (s.co j).due (.scope m) → (s.co j).zeroed = true
  told : ∀ j n, (s.co j).due (.handle n) → s.status n = true
  kept : ∀ n, s.status n = true ∨ s.phase n = .stored → s.stored n = true
  done : ∀ n, s.phase n = .done ∨ s.phase n = .wakingDone → s.status n = true
  awake : ∀ j a, (s.co j).pc = .parked a → (s.co j).queued = 0 → s.ready a = true →
    ∃ n, Wakes n (s.phase n) a

def Seen (s : State) : Prop :=
  ∀ j m, (s.co j).pc.await = some (.scope m) → s.live m = 0 → (s.co j).zeroed = true

section Waits

variable {s s' : State} {j n m : Nat} {a : Await}

theorem node_await {pc : Pc} (h : pc.node = some a) : pc.await = some a := by
  cases pc with
  | away | ready | push => cases h
  | check | remove | parked => exact h

theorem Waits.queued_zero (h : Waits s) (hnode : (s.co j).pc.node = none) :
    (s.co j).queued = 0 := by
  have hsingle := h.single j
  rw [hnode] at hsingle
  exact Nat.le_zero.mp hsingle

theorem Waits.observe (h : Waits s) : Waits s.observe := by
  refine ⟨h.member, h.nodup, h.single, ?_, h.told, h.kept, h.done, h.awake⟩
  intro j m hdue
  show ((s.co j).zeroed || s.seen j) = true
  rw [h.zeroed j m hdue]
  rfl

theorem seen_observe (s : State) : Seen s.observe := by
  intro j m hawait hlive
  have hseen : s.seen j = true := by
    have hpc : (s.co j).pc.await = some (.scope m) := hawait
    unfold State.seen
    rw [hpc]
    exact decide_eq_true hlive
  show ((s.co j).zeroed || s.seen j) = true
  rw [hseen, Bool.or_true]

theorem Waits.of_co (h : Waits s) (hphase : s'.phase = s.phase) (hlive : s'.live = s.live)
    (hstatus : s'.status = s.status) (hstored : s'.stored = s.stored)
    (hothers : ∀ j', j' ≠ j → s'.co j' = s.co j')
    (hlists : ∀ a j', j' ≠ j → (j' ∈ s'.waiters a ↔ j' ∈ s.waiters a))
    (hnodup : ∀ a, (s'.waiters a).Nodup)
    (hmember : ∀ a, j ∈ s'.waiters a ↔ (s'.co j).pc.node = some a ∧ (s'.co j).queued = 0)
    (hsingle : (s'.co j).queued ≤ (s'.co j).pc.node.isSome.toNat)
    (hzeroed : ∀ m, (s'.co j).due (.scope m) → (s'.co j).zeroed = true)
    (htold : ∀ n, (s'.co j).due (.handle n) → s.status n = true)
    (hawake : ∀ a, (s'.co j).pc = .parked a → (s'.co j).queued = 0 → s.ready a = true →
      ∃ n, Wakes n (s.phase n) a) : Waits s' := by
  have hready : ∀ a, s'.ready a = s.ready a := by
    intro a
    cases a with
    | scope m => exact congrArg (fun l => decide (l m = 0)) hlive
    | handle n => exact congrFun hstatus n
  refine ⟨?_, hnodup, ?_, ?_, ?_, ?_, ?_, ?_⟩
  · intro j' a
    by_cases hj : j' = j
    · subst hj
      exact hmember a
    · rw [hlists a j' hj, hothers j' hj]
      exact h.member j' a
  · intro j'
    by_cases hj : j' = j
    · subst hj
      exact hsingle
    · rw [hothers j' hj]
      exact h.single j'
  · intro j' m
    by_cases hj : j' = j
    · subst hj
      exact hzeroed m
    · rw [hothers j' hj]
      exact h.zeroed j' m
  · intro j' n
    rw [hstatus]
    by_cases hj : j' = j
    · subst hj
      exact htold n
    · rw [hothers j' hj]
      exact h.told j' n
  · rw [hstatus, hphase, hstored]
    exact h.kept
  · rw [hstatus, hphase]
    exact h.done
  · intro j' a
    rw [hready, hphase]
    by_cases hj : j' = j
    · subst hj
      exact hawake a
    · rw [hothers j' hj]
      exact h.awake j' a

theorem Waits.walks (h : Waits s) {c : Coroutine} (hnode : (s.co j).pc.node = none ∨
      (s.co j).queued ≠ 0) (hnew : c.pc.node = none) (hqueued : c.queued = 0) :
    Waits (s.setCo j c) := by
  have hself : (s.setCo j c).co j = c := Function.update_self ..
  have hout : ∀ a, j ∉ s.waiters a := by
    intro a hin
    obtain ⟨hsome, hzero⟩ := (h.member j a).mp hin
    rcases hnode with hnone | hne
    · rw [hnone] at hsome
      cases hsome
    · exact hne hzero
  refine h.of_co (j := j) rfl rfl rfl rfl (fun j' hj => Function.update_of_ne hj ..)
    (fun _ _ _ => Iff.rfl) h.nodup ?_ ?_ ?_ ?_ ?_
  · intro a
    rw [hself, hnew]
    exact iff_of_false (hout a) (fun hc => by cases hc.1)
  · rw [hself, hqueued]
    exact Nat.zero_le _
  · intro m hdue
    rw [hself] at hdue
    rw [hdue.1] at hnew
    cases hnew
  · intro n hdue
    rw [hself] at hdue
    rw [hdue.1] at hnew
    cases hnew
  · intro a hparked
    rw [hself] at hparked
    rw [hparked] at hnew
    cases hnew

/-! ## Steps of a coroutine -/

theorem call_waits (h : Waits s) (haway : (s.co j).pc = .away) :
    Waits (s.setCo j { s.co j with pc := .ready a, zeroed := false }) := by
  have hnone : (s.co j).pc.node = none := by rw [haway]; rfl
  exact h.walks (.inl hnone) rfl (h.queued_zero hnone)

theorem resume_waits (h : Waits s) (hqueued : 0 < (s.co j).queued) {rests : List Rest} :
    Waits (s.setCo j
      { s.co j with pc := .away, queued := (s.co j).queued - 1, rests := rests }) := by
  have hsingle := h.single j
  have hle : (s.co j).queued ≤ 1 := hsingle.trans (Bool.toNat_le _)
  exact h.walks (.inr (by omega)) rfl (by dsimp only; omega)

theorem rests_waits (h : Waits s) {rests : List Rest} :
    Waits (s.setCo j { s.co j with rests := rests }) := by
  have hself : (s.setCo j { s.co j with rests := rests }).co j = { s.co j with rests := rests } :=
    Function.update_self ..
  refine h.of_co (j := j) rfl rfl rfl rfl (fun j' hj => Function.update_of_ne hj ..)
    (fun _ _ _ => Iff.rfl) h.nodup ?_ ?_ ?_ ?_ ?_
  · intro a
    rw [hself]
    exact h.member j a
  · rw [hself]
    exact h.single j
  · rw [hself]
    exact h.zeroed j
  · rw [hself]
    exact h.told j
  · rw [hself]
    exact h.awake j

theorem not_mem_of_node (h : Waits s) (hnode : (s.co j).pc.node ≠ some a) : j ∉ s.waiters a :=
  fun hin => hnode ((h.member j a).mp hin).1

theorem push_waits (h : Waits s) (hpc : (s.co j).pc = .push a) :
    Waits ((s.setWaiters a ((s.waiters a).pushLocked j)).setCo j { s.co j with pc := .check a }) := by
  have hnone : (s.co j).pc.node = none := by rw [hpc]; rfl
  have hzero := h.queued_zero hnone
  have hself : ((s.setWaiters a ((s.waiters a).pushLocked j)).setCo j
      { s.co j with pc := .check a }).co j = { s.co j with pc := .check a } :=
    Function.update_self ..
  have hout : ∀ b, j ∉ s.waiters b := fun b => not_mem_of_node h (by rw [hnone]; simp)
  have hlist : ∀ b j', j' ∈ Function.update s.waiters a ((s.waiters a).pushLocked j) b ↔
      j' ∈ s.waiters b ∨ (b = a ∧ j' = j) := by
    intro b j'
    by_cases hb : b = a
    · subst hb
      rw [Function.update_self]
      simp [WaitList.pushLocked]
    · rw [Function.update_of_ne hb]
      simp [hb]
  refine h.of_co (j := j) rfl rfl rfl rfl (fun j' hj => Function.update_of_ne hj ..) ?_ ?_ ?_ ?_
    ?_ ?_ ?_
  · intro b j' hj
    exact (hlist b j').trans (or_iff_left fun hc => hj hc.2)
  · intro b
    show (Function.update s.waiters a ((s.waiters a).pushLocked j) b).Nodup
    by_cases hb : b = a
    · subst hb
      rw [Function.update_self]
      refine List.nodup_append.mpr ⟨h.nodup b, List.nodup_singleton j, ?_⟩
      rintro x hx y hy rfl
      obtain rfl := List.mem_singleton.mp hy
      exact hout b hx
    · rw [Function.update_of_ne hb]
      exact h.nodup b
  · intro b
    rw [hself]
    refine (hlist b j).trans ?_
    constructor
    · rintro (hin | ⟨rfl, -⟩)
      · exact absurd hin (hout b)
      · exact ⟨rfl, hzero⟩
    · rintro ⟨hb, -⟩
      exact .inr ⟨(Option.some.inj hb).symm, rfl⟩
  · rw [hself]
    dsimp only
    rw [hzero]
    exact Nat.zero_le _
  · intro m hdue
    rw [hself] at hdue
    rcases hdue.2 with hq | hpc'
    · exact absurd hzero hq
    · cases hpc'
  · intro n hdue
    rw [hself] at hdue
    rcases hdue.2 with hq | hpc'
    · exact absurd hzero hq
    · cases hpc'
  · intro b hparked
    rw [hself] at hparked
    cases hparked

/-- The coroutine stays registered and goes to a point with the same node. -/
theorem Waits.stays (h : Waits s) {pc : Pc} (hnode : pc.node = (s.co j).pc.node)
    (hzeroed : ∀ m, ({ s.co j with pc := pc } : Coroutine).due (.scope m) →
      (s.co j).zeroed = true)
    (htold : ∀ n, ({ s.co j with pc := pc } : Coroutine).due (.handle n) → s.status n = true)
    (hawake : ∀ a, pc = .parked a → (s.co j).queued = 0 → s.ready a = true →
      ∃ n, Wakes n (s.phase n) a) : Waits (s.setCo j { s.co j with pc := pc }) := by
  have hself : (s.setCo j { s.co j with pc := pc }).co j = { s.co j with pc := pc } :=
    Function.update_self ..
  refine h.of_co (j := j) rfl rfl rfl rfl (fun j' hj => Function.update_of_ne hj ..)
    (fun _ _ _ => Iff.rfl) h.nodup ?_ ?_ ?_ ?_ ?_
  · intro a
    rw [hself]
    dsimp only
    rw [hnode]
    exact h.member j a
  · rw [hself]
    dsimp only
    rw [hnode]
    exact h.single j
  · rw [hself]
    exact hzeroed
  · rw [hself]
    exact htold
  · rw [hself]
    exact hawake

theorem check_waits (h : Waits s) (hseen : Seen s) (hpc : (s.co j).pc = .check a) :
    Waits (s.setCo j { s.co j with pc := if s.ready a then .remove a else .parked a }) := by
  have hold : ∀ b : Await, (s.co j).queued ≠ 0 → Pc.node (.check a) = some b →
      (s.co j).due b := by
    intro b hqueued hnode
    refine ⟨?_, .inl hqueued⟩
    rw [hpc]
    exact hnode
  cases hready : s.ready a with
  | true =>
      refine h.stays (by rw [hpc]; rfl) ?_ ?_ ?_
      · rintro m ⟨hnode, -⟩
        obtain rfl := Option.some.inj hnode
        exact hseen j m (by rw [hpc]; rfl) (of_decide_eq_true hready)
      · rintro n ⟨hnode, -⟩
        obtain rfl := Option.some.inj hnode
        exact hready
      · intro b hparked
        cases hparked
  | false =>
      refine h.stays (by rw [hpc]; rfl) ?_ ?_ ?_
      · rintro m ⟨hnode, hqueued | hremove⟩
        · exact h.zeroed j m (hold _ hqueued hnode)
        · cases hremove
      · rintro n ⟨hnode, hqueued | hremove⟩
        · exact h.told j n (hold _ hqueued hnode)
        · cases hremove
      · intro b hparked _ hcontra
        obtain rfl := Pc.parked.inj hparked
        rw [hready] at hcontra
        cases hcontra

theorem removeLocked_of_notMem {l : WaitList Nat} (hout : j ∉ l) : l.removeLocked j = (false, l) := by
  unfold WaitList.removeLocked
  rw [List.erase_of_not_mem hout, decide_eq_false hout]

/-- A node that is still in its list comes out of it; one that is not was fired. -/
theorem remove_waits (h : Waits s) (hpc : (s.co j).pc = .remove a) :
    Waits ((s.setWaiters a ((s.waiters a).removeLocked j).2).setCo j
      { s.co j with
        pc := if ((s.waiters a).removeLocked j).1 then .away else .parked a }) := by
  have hnode : (s.co j).pc.node = some a := by rw [hpc]; rfl
  by_cases hin : j ∈ s.waiters a
  · have hzero := ((h.member j a).mp hin).2
    have hself : ((s.setWaiters a ((s.waiters a).removeLocked j).2).setCo j
        { s.co j with
          pc := if ((s.waiters a).removeLocked j).1 then .away else .parked a }).co j =
        { s.co j with pc := .away } := by
      have htaken : ((s.waiters a).removeLocked j).1 = true := decide_eq_true hin
      refine (Function.update_self ..).trans ?_
      rw [if_pos htaken]
    refine h.of_co (j := j) rfl rfl rfl rfl (fun j' hj => Function.update_of_ne hj ..) ?_ ?_ ?_ ?_
      ?_ ?_ ?_
    · intro b j' hj
      show j' ∈ Function.update s.waiters a ((s.waiters a).erase j) b ↔ _
      by_cases hb : b = a
      · subst hb
        rw [Function.update_self]
        exact List.mem_erase_of_ne hj
      · rw [Function.update_of_ne hb]
    · intro b
      show (Function.update s.waiters a ((s.waiters a).erase j) b).Nodup
      by_cases hb : b = a
      · subst hb
        rw [Function.update_self]
        exact (h.nodup b).erase j
      · rw [Function.update_of_ne hb]
        exact h.nodup b
    · intro b
      rw [hself]
      refine iff_of_false ?_ (fun hc => by cases hc.1)
      show j ∉ Function.update s.waiters a ((s.waiters a).erase j) b
      by_cases hb : b = a
      · subst hb
        rw [Function.update_self]
        exact (h.nodup b).not_mem_erase
      · rw [Function.update_of_ne hb]
        refine not_mem_of_node h ?_
        rw [hnode]
        exact fun heq => hb (Option.some.inj heq).symm
    · rw [hself]
      dsimp only
      rw [hzero]
      exact Nat.zero_le _
    · intro m hdue
      rw [hself] at hdue
      cases hdue.1
    · intro n hdue
      rw [hself] at hdue
      cases hdue.1
    · intro b hparked
      rw [hself] at hparked
      cases hparked
  · have hqueued : (s.co j).queued ≠ 0 := fun hzero => hin ((h.member j a).mpr ⟨hnode, hzero⟩)
    have hsame : s.setWaiters a (s.waiters a) = s := by
      unfold State.setWaiters
      rw [Function.update_eq_self]
    rw [removeLocked_of_notMem hin, hsame]
    have hold : ∀ b : Await, some a = some b → (s.co j).due b := by
      intro b hb
      exact ⟨hnode.trans hb, .inl hqueued⟩
    refine h.stays (by rw [hpc]; rfl) ?_ ?_ ?_
    · rintro m ⟨hb, -⟩
      exact h.zeroed j m (hold _ hb)
    · rintro n ⟨hb, -⟩
      exact h.told j n (hold _ hb)
    · exact fun b _ hzero => absurd hzero hqueued

theorem suspend_waits (h : Waits s) (hseen : Seen s) (j : Nat) : Waits (s.suspend j) := by
  unfold State.suspend
  cases hpc : (s.co j).pc with
  | away | parked => exact h
  | ready a =>
      have hnone : (s.co j).pc.node = none := by rw [hpc]; rfl
      refine h.walks (.inl hnone) ?_ (h.queued_zero hnone)
      dsimp only
      split <;> rfl
  | push a => exact push_waits h hpc
  | check a => exact check_waits h hseen hpc
  | remove a => exact remove_waits h hpc

/-! ## Steps of a node -/

theorem Waits.of_node (h : Waits s) (hco : s'.co = s.co) (hwaiters : s'.waiters = s.waiters)
    (hstatus : ∀ n, s.status n = true → s'.status n = true)
    (hkept : ∀ n, s'.status n = true ∨ s'.phase n = .stored → s'.stored n = true)
    (hdone : ∀ n, s'.phase n = .done ∨ s'.phase n = .wakingDone → s'.status n = true)
    (hawake : ∀ a, s'.ready a = true → (∃ n, Wakes n (s'.phase n) a) ∨ s.waiters a = [] ∨
      (s.ready a = true ∧ ∀ n, Wakes n (s.phase n) a → Wakes n (s'.phase n) a)) : Waits s' := by
  refine ⟨?_, ?_, ?_, ?_, ?_, hkept, hdone, ?_⟩
  · rw [hco, hwaiters]
    exact h.member
  · rw [hwaiters]
    exact h.nodup
  · rw [hco]
    exact h.single
  · rw [hco]
    exact h.zeroed
  · rw [hco]
    exact fun j n hdue => hstatus n (h.told j n hdue)
  · rw [hco]
    intro j a hparked hzero hready
    rcases hawake a hready with hn | hempty | ⟨hold, hmono⟩
    · exact hn
    · have hin : j ∈ s.waiters a := (h.member j a).mpr ⟨by rw [hparked]; rfl, hzero⟩
      rw [hempty] at hin
      cases hin
    · obtain ⟨n, hn⟩ := h.awake j a hparked hzero hold
      exact ⟨n, hmono n hn⟩

theorem addNode_waits (h : Waits s) (hr : Rooted s) {p : Option Nat} {phase : Phase}
    (hphase : phase = .scope ∨ phase = .retaining (some s.next)) :
    Waits (s.addNode p phase) := by
  have hself : (s.addNode p phase).phase s.next = phase := Function.update_self ..
  have hne : ∀ n, n ≠ s.next → (s.addNode p phase).phase n = s.phase n :=
    fun n hn => Function.update_of_ne hn ..
  refine h.of_node rfl rfl (fun _ hn => hn) ?_ ?_ fun a hready => .inr (.inr ⟨?_, ?_⟩)
  · rintro n (hstatus | hstored)
    · exact h.kept n (.inl hstatus)
    · by_cases hn : n = s.next
      · subst hn
        rw [hself] at hstored
        rcases hphase with rfl | rfl <;> cases hstored
      · rw [hne n hn] at hstored
        exact h.kept n (.inr hstored)
  · intro n hn'
    by_cases hn : n = s.next
    · subst hn
      rw [hself] at hn'
      rcases hphase with rfl | rfl <;> rcases hn' with hd | hd <;> cases hd
    · rw [hne n hn] at hn'
      exact h.done n hn'
  · cases a <;> exact hready
  · intro n hwakes
    by_cases hn : n = s.next
    · subst hn
      rw [hr.fresh s.next (Nat.le_refl _)] at hwakes
      exact hwakes.elim
    · rw [hne n hn]
      exact hwakes

theorem fireAll_waits (h : Waits s) (hseen : Seen s) (hready : s.ready a = true) :
    Waits (s.fireAll a) := by
  have hfired : ∀ j, j ∈ s.waiters a →
      (s.fireAll a).co j = { s.co j with queued := (s.co j).queued + 1 } := fun j hj => if_pos hj
  have hothers : ∀ j, j ∉ s.waiters a → (s.fireAll a).co j = s.co j := fun j hj => if_neg hj
  have hlist : ∀ b, b ≠ a → (s.fireAll a).waiters b = s.waiters b :=
    fun b hb => Function.update_of_ne hb ..
  have hempty : (s.fireAll a).waiters a = [] := Function.update_self ..
  have hsame : ∀ b, (s.fireAll a).ready b = s.ready b := by
    intro b
    cases b <;> rfl
  have hdue : ∀ j b, j ∈ s.waiters a → ((s.fireAll a).co j).pc.node = some b → b = a := by
    intro j b hj hnode
    rw [hfired j hj] at hnode
    exact (Option.some.inj (((h.member j a).mp hj).1.symm.trans hnode)).symm
  refine ⟨?_, ?_, ?_, ?_, ?_, h.kept, h.done, ?_⟩
  · intro j b
    by_cases hj : j ∈ s.waiters a
    · refine iff_of_false ?_ ?_
      · by_cases hb : b = a
        · subst hb
          rw [hempty]
          exact List.not_mem_nil
        · rw [hlist b hb]
          intro hin
          have hnode := ((h.member j b).mp hin).1
          exact hb (Option.some.inj (hnode.symm.trans ((h.member j a).mp hj).1))
      · rintro ⟨-, hzero⟩
        rw [hfired j hj] at hzero
        exact Nat.succ_ne_zero _ hzero
    · rw [hothers j hj]
      by_cases hb : b = a
      · subst hb
        rw [hempty]
        refine iff_of_false List.not_mem_nil fun hc => hj ((h.member j b).mpr hc)
      · rw [hlist b hb]
        exact h.member j b
  · intro b
    by_cases hb : b = a
    · subst hb
      rw [hempty]
      exact List.nodup_nil
    · rw [hlist b hb]
      exact h.nodup b
  · intro j
    by_cases hj : j ∈ s.waiters a
    · obtain ⟨hnode, hzero⟩ := (h.member j a).mp hj
      rw [hfired j hj]
      dsimp only
      rw [hnode, hzero]
      exact Nat.le_refl _
    · rw [hothers j hj]
      exact h.single j
  · intro j m hd
    by_cases hj : j ∈ s.waiters a
    · obtain rfl := hdue j _ hj hd.1
      rw [hfired j hj]
      exact hseen j m (node_await ((h.member j _).mp hj).1) (of_decide_eq_true hready)
    · rw [hothers j hj] at hd ⊢
      exact h.zeroed j m hd
  · intro j n hd
    by_cases hj : j ∈ s.waiters a
    · obtain rfl := hdue j _ hj hd.1
      exact hready
    · rw [hothers j hj] at hd
      exact h.told j n hd
  · intro j b hparked hzero hb
    by_cases hj : j ∈ s.waiters a
    · rw [hfired j hj] at hzero
      exact absurd hzero (Nat.succ_ne_zero _)
    · rw [hothers j hj] at hparked hzero
      rw [hsame] at hb
      exact h.awake j b hparked hzero hb

/-- The completion of `n` goes on; where it leaves a list behind, the list is empty or there
is nothing to tell. -/
theorem setPhase_waits (h : Waits s) {p : Phase} (hstored : p ≠ .stored)
    (hdone : p = .done ∨ p = .wakingDone → s.status n = true)
    (hleft : ∀ a, Wakes n (s.phase n) a → Wakes n p a ∨ s.waiters a = [] ∨ s.ready a = false) :
    Waits (s.setPhase n p) := by
  have hself : (s.setPhase n p).phase n = p := Function.update_self ..
  have hne : ∀ n', n' ≠ n → (s.setPhase n p).phase n' = s.phase n' :=
    fun n' hn => Function.update_of_ne hn ..
  refine h.of_node rfl rfl (fun _ hn => hn) ?_ ?_ fun a hready => ?_
  · rintro n' (hstatus | hp)
    · exact h.kept n' (.inl hstatus)
    · by_cases hn : n' = n
      · subst hn
        rw [hself] at hp
        exact absurd hp hstored
      · rw [hne n' hn] at hp
        exact h.kept n' (.inr hp)
  · intro n' hp
    by_cases hn : n' = n
    · subst hn
      rw [hself] at hp
      exact hdone hp
    · rw [hne n' hn] at hp
      exact h.done n' hp
  · have hold : s.ready a = true := by
      cases a <;> exact hready
    by_cases hwakes : Wakes n (s.phase n) a
    · rcases hleft a hwakes with hp | hempty | hnot
      · exact .inl ⟨n, by rw [hself]; exact hp⟩
      · exact .inr (.inl hempty)
      · rw [hold] at hnot
        cases hnot
    · refine .inr (.inr ⟨hold, fun n' hn' => ?_⟩)
      by_cases hn : n' = n
      · subst hn
        exact absurd hn' hwakes
      · rw [hne n' hn]
        exact hn'

theorem setLive_waits (h : Waits s) {v : Nat} {p : Phase} (hold : ∀ a, ¬Wakes n (s.phase n) a)
    (hstored : p ≠ .stored) (hdone : p ≠ .done ∧ p ≠ .wakingDone)
    (hzero : v = 0 → s.live m = 0 ∨ Wakes n p (.scope m)) :
    Waits ({ s with live := Function.update s.live m v }.setPhase n p) := by
  have hself : ({ s with live := Function.update s.live m v }.setPhase n p).phase n = p :=
    Function.update_self ..
  have hne : ∀ n', n' ≠ n →
      ({ s with live := Function.update s.live m v }.setPhase n p).phase n' = s.phase n' :=
    fun n' hn => Function.update_of_ne hn ..
  have hmono : ∀ a n', Wakes n' (s.phase n') a →
      Wakes n' (({ s with live := Function.update s.live m v }.setPhase n p).phase n') a := by
    intro a n' hn'
    by_cases hn : n' = n
    · subst hn
      exact absurd hn' (hold a)
    · rw [hne n' hn]
      exact hn'
  refine h.of_node rfl rfl (fun _ hn => hn) ?_ ?_ fun a hready => ?_
  · rintro n' (hstatus | hp)
    · exact h.kept n' (.inl hstatus)
    · by_cases hn : n' = n
      · subst hn
        rw [hself] at hp
        exact absurd hp hstored
      · rw [hne n' hn] at hp
        exact h.kept n' (.inr hp)
  · intro n' hp
    by_cases hn : n' = n
    · subst hn
      rw [hself] at hp
      exact (hp.elim hdone.1 hdone.2).elim
    · rw [hne n' hn] at hp
      exact h.done n' hp
  · cases a with
    | handle n' => exact .inr (.inr ⟨hready, hmono _⟩)
    | scope x =>
        have hx : Function.update s.live m v x = 0 := of_decide_eq_true hready
        by_cases hxm : x = m
        · subst hxm
          rw [Function.update_self] at hx
          rcases hzero hx with hlive | hwakes
          · exact .inr (.inr ⟨decide_eq_true hlive, hmono _⟩)
          · exact .inl ⟨n, by rw [hself]; exact hwakes⟩
        · rw [Function.update_of_ne hxm] at hx
          exact .inr (.inr ⟨decide_eq_true hx, hmono _⟩)

theorem store_waits (h : Waits s) (hp : s.phase n = .running) :
    Waits ({ s with stored := Function.update s.stored n true }.setPhase n .stored) := by
  have hphase : ∀ n', n' ≠ n →
      Function.update s.phase n .stored n' = s.phase n' := fun n' hn => Function.update_of_ne hn ..
  refine h.of_node rfl rfl (fun _ hn => hn) ?_ ?_ fun a hready => .inr (.inr ⟨?_, ?_⟩)
  · intro n' hn'
    show Function.update s.stored n true n' = true
    by_cases hn : n' = n
    · subst hn
      exact Function.update_self ..
    · rw [Function.update_of_ne hn]
      exact h.kept n' (hn'.imp_right fun hq => (hphase n' hn).symm.trans hq)
  · intro n' hn'
    by_cases hn : n' = n
    · subst hn
      rw [setPhase_self] at hn'
      rcases hn' with hd | hd <;> cases hd
    · exact h.done n' (hn'.imp (hphase n' hn).symm.trans (hphase n' hn).symm.trans)
  · cases a <;> exact hready
  · intro n' hwakes
    by_cases hn : n' = n
    · subst hn
      rw [hp] at hwakes
      cases a <;> exact hwakes.elim
    · show Wakes n' (Function.update s.phase n .stored n') a
      rw [hphase n' hn]
      exact hwakes

/-- The status is set behind the result, and whoever waits for it is looked for next. -/
theorem status_waits (h : Waits s) (hp : s.phase n = .stored) :
    Waits ({ s with status := Function.update s.status n true }.setPhase n .done) := by
  have hphase : ∀ n', n' ≠ n →
      Function.update s.phase n .done n' = s.phase n' := fun n' hn => Function.update_of_ne hn ..
  have hstatus : ∀ n', n' ≠ n → Function.update s.status n true n' = s.status n' :=
    fun n' hn => Function.update_of_ne hn ..
  refine h.of_node rfl rfl ?_ ?_ ?_ fun a hready => ?_
  · intro n' hn'
    show Function.update s.status n true n' = true
    by_cases hn : n' = n
    · subst hn
      exact Function.update_self ..
    · rw [hstatus n' hn]
      exact hn'
  · intro n' hn'
    by_cases hn : n' = n
    · subst hn
      exact h.kept n' (.inr hp)
    · exact h.kept n' (hn'.imp (hstatus n' hn).symm.trans (hphase n' hn).symm.trans)
  · intro n' hn'
    show Function.update s.status n true n' = true
    by_cases hn : n' = n
    · subst hn
      exact Function.update_self ..
    · rw [hstatus n' hn]
      exact h.done n' (hn'.imp (hphase n' hn).symm.trans (hphase n' hn).symm.trans)
  · have hmono : ∀ n', Wakes n' (s.phase n') a →
        Wakes n' (Function.update s.phase n .done n') a := by
      intro n' hwakes
      by_cases hn : n' = n
      · subst hn
        rw [hp] at hwakes
        cases a <;> exact hwakes.elim
      · rw [hphase n' hn]
        exact hwakes
    cases a with
    | scope m => exact .inr (.inr ⟨hready, hmono⟩)
    | handle x =>
        by_cases hx : x = n
        · subst hx
          exact .inl ⟨x, by rw [setPhase_self]; rfl⟩
        · have hold : Function.update s.status n true x = true := hready
          rw [hstatus x hx] at hold
          exact .inr (.inr ⟨hold, hmono⟩)

theorem advance_waits (h : Waits s) (hseen : Seen s) (n : Nat) : Waits (s.advance n) := by
  unfold State.advance
  cases hp : s.phase n with
  | absent | scope | completed => exact h
  | retaining cur =>
      have hold : ∀ a, ¬Wakes n (s.phase n) a := by
        intro a
        rw [hp]
        cases a <;> exact id
      cases cur with
      | some m => exact setLive_waits h hold (by simp) (by simp) (by simp)
      | none => exact setPhase_waits h (by simp) (by simp) fun a hwakes => absurd hwakes (hold a)
  | running => exact store_waits h hp
  | stored => exact status_waits h hp
  | done =>
      have hstatus := h.done n (.inl hp)
      dsimp only
      cases hempty : (s.waiters (.handle n)).emptyRelaxed with
      | true =>
          refine setPhase_waits h (by simp) (by simp) fun a hwakes => .inr (.inl ?_)
          rw [hp] at hwakes
          cases a with
          | scope m => exact hwakes.elim
          | handle x =>
              obtain rfl : n = x := hwakes
              exact List.isEmpty_iff.mp hempty
      | false =>
          refine setPhase_waits h (by simp) (fun _ => hstatus) fun a hwakes => .inl ?_
          rw [hp] at hwakes
          cases a <;> exact hwakes
  | wakingDone =>
      have hready : s.ready (.handle n) = true := h.done n (.inr hp)
      refine setPhase_waits (fireAll_waits h hseen hready) (by simp) (by simp)
        fun a hwakes => .inr (.inl ?_)
      rw [show (s.fireAll (.handle n)).phase n = .wakingDone from hp] at hwakes
      cases a with
      | scope m => exact hwakes.elim
      | handle x =>
          obtain rfl : n = x := hwakes
          exact Function.update_self ..
  | dropping cur =>
      have hold : ∀ a, ¬Wakes n (s.phase n) a := by
        intro a
        rw [hp]
        cases a <;> exact id
      cases cur with
      | some m =>
          dsimp only
          by_cases hone : s.live m = 1
          · rw [if_pos hone]
            exact setLive_waits h hold (by simp) (by simp) fun _ => .inr rfl
          · rw [if_neg hone]
            exact setLive_waits h hold (by simp) (by simp) fun hv => .inl (by omega)
      | none => exact setPhase_waits h (by simp) (by simp) fun a hwakes => absurd hwakes (hold a)
  | draining m =>
      dsimp only
      cases hempty : (s.waiters (.scope m)).emptyRelaxed with
      | true =>
          refine setPhase_waits h (by simp) (by simp) fun a hwakes => .inr (.inl ?_)
          rw [hp] at hwakes
          cases a with
          | handle x => exact hwakes.elim
          | scope x =>
              obtain rfl : m = x := hwakes
              exact List.isEmpty_iff.mp hempty
      | false =>
          refine setPhase_waits h (by simp) (by simp) fun a hwakes => .inl ?_
          rw [hp] at hwakes
          cases a <;> exact hwakes
  | waking m =>
      dsimp only
      by_cases hzero : s.live m = 0
      · have hready : s.ready (.scope m) = true := decide_eq_true hzero
        rw [if_pos hzero]
        refine setPhase_waits (fireAll_waits h hseen hready) (by simp) (by simp)
          fun a hwakes => .inr (.inl ?_)
        rw [show (s.fireAll (.scope m)).phase n = .waking m from hp] at hwakes
        cases a with
        | handle x => exact hwakes.elim
        | scope x =>
            obtain rfl : m = x := hwakes
            exact Function.update_self ..
      · rw [if_neg hzero]
        -- the count has left zero, and whoever brings it back looks again
        refine setPhase_waits h (by simp) (by simp) fun a hwakes => .inr (.inr ?_)
        rw [hp] at hwakes
        cases a with
        | handle x => exact hwakes.elim
        | scope x =>
            obtain rfl : m = x := hwakes
            exact decide_eq_false hzero

end Waits

end Uvent.Tasks.Joins
