import Uvent.Queue.RecyclingFrames

/-!
# Calls of `size` beside the queue and its scans

`size_relaxed` protects two segments with one record: the one of `head_`, then the one of
`tail_`, and it reads both afterwards.  The calls run beside the steps of the recycling queue;
inside the domain a thread in such a call makes the steps of the domain.

`found` is the place that `protect` has loaded last in a call of `size_relaxed`.
-/

namespace Uvent.Queue.Sizing

open Uvent.Lib
open Uvent.Reclaim
open Uvent.Queue.Segmented (Chain)

/-- Where a thread is in `size_relaxed`: in the first call of `protect`, in the second with the
segment `h` of the first, and at the loads of `deq_pos` of `h` and of `enq_pos` of `k`. -/
inductive Pc where
  | out
  | protectHead
  | protectTail (h : Nat)
  | loadDeq (h k : Nat)
  | loadEnq (hd k : Nat)
  deriving DecidableEq, Repr

def source : Pc → Option Nat
  | .protectHead => some 0
  | .protectTail _ => some 1
  | _ => none

def reads : Pc → List Nat
  | .loadDeq h k => [h, k]
  | .loadEnq _ k => [k]
  | _ => []

/-- `result` is what the last call of a thread has returned. -/
structure State (α : Type) where
  queue : Recycling.State α
  pc : Nat → Pc
  found : Nat → Nat
  result : Nat → Nat

variable {α : Type}

namespace State

def new : State α := ⟨.new, fun _ => .out, fun _ => 0, fun _ => 0⟩

def goto (s : State α) (t : Nat) (pc : Pc) : State α :=
  { s with pc := Function.update s.pc t pc }

def setDomain (s : State α) (d : Hazard.State) : State α :=
  { s with queue := { s.queue with domain := d } }

def inside (s : State α) (t : Nat) (e : Hazard.Event) (d : Hazard.State) : State α :=
  { s.setDomain d with
    found :=
      match e with
      | .load 0 => Function.update s.found t s.queue.queue.head
      | .load _ => Function.update s.found t s.queue.queue.tail
      | _ => s.found }

def obtained (s : State α) (t : Nat) (pc : Pc) : State α :=
  (s.setDomain (s.queue.domain.goto t .idle)).goto t pc

end State

/-- `h->base` plus the positions that are dequeued, and the same of the tail. -/
def dequeued (size : Nat) (q : Chain α) (h : Nat) : Nat := h * size + min (q.segs h).deqPos size

def enqueued (size : Nat) (q : Chain α) (k : Nat) : Nat := k * size + min (q.segs k).enqPos size

inductive Step (size : Nat) (s : State α) (t : Nat) : Hazard.Event → State α → Prop where
  | queue (e : Hazard.Event) (q : Recycling.State α) (out : s.pc t = .out)
      (hstep : Recycling.Step size s.queue t e q) : Step size s t e { s with queue := q }
  | call (out : s.pc t = .out) (idle : s.queue.pc t = .idle)
      (outside : (s.queue.domain.thread t).pc = .idle) :
      Step size s t .other (s.goto t .protectHead)
  -- `local_record`, which a bound thread has already
  | bind (pc : s.pc t = .protectHead) (outside : (s.queue.domain.thread t).pc = .idle)
      (unbound : (s.queue.domain.thread t).tls = none) :
      Step size s t .other
        (s.setDomain (s.queue.domain.goto t (.acquireWalk s.queue.domain.head)))
  | protect (a r : Nat) (pc : source (s.pc t) = some a)
      (outside : (s.queue.domain.thread t).pc = .idle)
      (bound : (s.queue.domain.thread t).tls = some r) :
      Step size s t .other (s.setDomain (s.queue.domain.goto t (.protectLoad a)))
  | inside (e : Hazard.Event) (d : Hazard.State) (busy : source (s.pc t) ≠ none)
      (midway : (s.queue.domain.thread t).pc ≠ .idle)
      (unfinished : ∀ result, (s.queue.domain.thread t).pc ≠ .done result)
      (own : ∀ a v, e ≠ .store a v) (hstep : Hazard.Step s.queue.domain t e d) :
      Step size s t e (s.inside t e d)
  | obtainedHead (p : Nat) (pc : s.pc t = .protectHead)
      (finished : (s.queue.domain.thread t).pc = .done (some p)) :
      Step size s t .other (s.obtained t (.protectTail (s.found t)))
  | obtainedTail (h p : Nat) (pc : s.pc t = .protectTail h)
      (finished : (s.queue.domain.thread t).pc = .done (some p)) :
      Step size s t .other (s.obtained t (.loadDeq h (s.found t)))
  | loadDeq (h k : Nat) (pc : s.pc t = .loadDeq h k) :
      Step size s t .other (s.goto t (.loadEnq (dequeued size s.queue.queue h) k))
  | loadEnq (hd k : Nat) (pc : s.pc t = .loadEnq hd k) :
      Step size s t .other
        { s.goto t .out with
          result := Function.update s.result t
            (if hd < enqueued size s.queue.queue k then enqueued size s.queue.queue k - hd else 0) }

abbrev Runs (size : Nat) (ok : State α → Nat → Hazard.Event → Prop) : State α → Prop :=
  ThreadRuns (· = .new) (Step size) ok

/-- What `size_relaxed` reads was not handed to its deleter, and the head segment is in a slot of
the thread for as long as it is used. -/
structure Safe (s : State α) : Prop where
  read : ∀ t, ∀ k ∈ reads (s.pc t), s.queue.segment k ∉ s.queue.domain.deleted
  slot : ∀ t h k, s.pc t = .loadDeq h k → ∃ r i, (s.queue.domain.thread t).tls = some r ∧
    i < Hazard.kSlots ∧ (s.queue.domain.record r).hp i = some (s.queue.addr h)

/-- Where the second `protect` is about to publish, the slot whose turn it is does not hold the
head segment that the first one has returned. -/
def Spares (s : State α) (t : Nat) : Prop :=
  ∀ h r a p, s.pc t = .protectTail h → (s.queue.domain.thread t).tls = some r →
    (s.queue.domain.thread t).pc = .protectPublish a p →
    (s.queue.domain.record r).hp (s.queue.domain.record r).victim ≠ some (s.queue.addr h)

/-- The loads of `tail_` are guarded, and the second `protect` spares the slot of the first. -/
def Sparing (s : State α) (t : Nat) (e : Hazard.Event) : Prop :=
  Recycling.Guarded s.queue t e ∧ Spares s t

/-! ### What a thread holds -/

open Uvent.Queue.Recycling (Inv Holds Undisturbed asking protecting)
open Uvent.Reclaim.Hazard (goto_pc goto_tls)

section Holding

variable {q : Recycling.State α} {t k r : Nat}

theorem holds_goto (h : Holds q t k) (pc : Hazard.Pc) :
    Holds { q with domain := q.domain.goto t pc } t k := by
  obtain ⟨r, i, htls, hhp, hreturned⟩ := h
  exact ⟨r, i, (goto_tls ..).trans htls, hhp, hreturned⟩

theorem holds_returnSlot (h : Holds q t k) (hbound : (q.domain.thread t).tls = some r) {i g : Nat}
    (hgen : (q.domain.record r).hp i = some (q.addr k) → g = q.birth k) (pc : Hazard.Pc) :
    Holds { q with domain := (q.domain.returnSlot r i g).goto t pc } t k := by
  obtain ⟨r', j, htls, hhp, hreturned⟩ := h
  obtain rfl : r' = r := Option.some.inj (htls.symm.trans hbound)
  refine ⟨r', j, (goto_tls ..).trans htls, ?_, ?_⟩
  · change (Function.update q.domain.record r' _ r').hp j = _
    rw [Function.update_self]
    exact hhp
  · change (Function.update q.domain.record r' _ r').returned j = _
    rw [Function.update_self]
    change Function.update (q.domain.record r').returned i (some g) j = _
    by_cases hji : j = i
    · rw [hji] at hhp ⊢
      rw [Function.update_self, hgen hhp]
    · rw [Function.update_of_ne hji]
      exact hreturned

theorem holds_publish (h : Holds q t k) (hbound : (q.domain.thread t).tls = some r)
    (hspares : (q.domain.record r).hp (q.domain.record r).victim ≠ some (q.addr k)) (p : Nat)
    (pc : Hazard.Pc) : Holds { q with domain := (q.domain.publish r p).goto t pc } t k := by
  obtain ⟨r', j, htls, hhp, hreturned⟩ := h
  obtain rfl : r' = r := Option.some.inj (htls.symm.trans hbound)
  have hj : j ≠ (q.domain.record r').victim := by
    intro heq
    rw [heq] at hhp
    exact hspares hhp
  refine ⟨r', j, (goto_tls ..).trans htls, ?_, ?_⟩
  · change (Function.update q.domain.record r' _ r').hp j = _
    rw [Function.update_self]
    exact (Function.update_of_ne hj ..).trans hhp
  · change (Function.update q.domain.record r' _ r').returned j = _
    rw [Function.update_self]
    exact (Function.update_of_ne hj ..).trans hreturned

/-- The slot that `protect` has just returned from. -/
theorem holds_done (hbound : (q.domain.thread t).tls = some r) {i : Nat} {pc : Hazard.Pc}
    (hhp : (q.domain.record r).hp i = some (q.addr k)) {g : Nat} (hg : g = q.birth k) :
    Holds { q with domain := (q.domain.returnSlot r i g).goto t pc } t k := by
  refine ⟨r, i, (goto_tls ..).trans hbound, ?_, ?_⟩
  · change (Function.update q.domain.record r _ r).hp i = _
    rw [Function.update_self]
    exact hhp
  · change (Function.update q.domain.record r _ r).returned i = _
    rw [Function.update_self, ← hg]
    exact Function.update_self ..

end Holding

/-! ### The invariant -/

def Keeps (s : State α) (t k : Nat) : Prop := k ≤ s.queue.queue.last ∧ Holds s.queue t k

/-- What is known of a call of `protect` for source `a`. -/
structure Finds (s : State α) (t a : Nat) : Prop where
  asking : ∀ b, asking (s.queue.domain.thread t).pc = some b → b = a
  check : ∀ b p g j, (s.queue.domain.thread t).pc = .protectCheck b p g j →
    s.found t ≤ s.queue.queue.last ∧ p = s.queue.addr (s.found t) ∧ g = s.queue.birth (s.found t)
  done : ∀ res, (s.queue.domain.thread t).pc = .done res → Keeps s t (s.found t)

/-- The thread is outside the domain or in `protect`. -/
def Protects (s : State α) (t : Nat) : Prop :=
  (s.queue.domain.thread t).pc = .idle ∨ protecting (s.queue.domain.thread t).pc = true

/-- What holds of a thread where it is in `size_relaxed`. -/
def Phase (s : State α) (t : Nat) : Pc → Prop
  | .out => True
  | .protectHead => Finds s t 0
  | .protectTail h => Finds s t 1 ∧ Keeps s t h ∧ Protects s t
  | .loadDeq h k => Keeps s t h ∧ Keeps s t k
  | .loadEnq _ k => Keeps s t k

structure Sound (s : State α) : Prop where
  inv : Inv s.queue
  idle : ∀ t, s.pc t ≠ .out → s.queue.pc t = .idle
  phase : ∀ t, Phase s t (s.pc t)

variable {s s' : State α} {t k a : Nat} {e : Hazard.Event} {size : Nat}

theorem Keeps.undisturbed (h : Keeps s t k) (hu : Undisturbed t s.queue s'.queue) :
    Keeps s' t k :=
  ⟨Nat.le_trans h.1 hu.last, h.2.undisturbed hu h.1⟩

theorem Finds.undisturbed (h : Finds s t a) (hu : Undisturbed t s.queue s'.queue)
    (hfound : s'.found t = s.found t) : Finds s' t a where
  asking := by
    intro b hb
    rw [hu.thread] at hb
    exact h.asking b hb
  check := by
    intro b p g j hpc
    rw [hu.thread] at hpc
    obtain ⟨hlast, hp, hg⟩ := h.check b p g j hpc
    rw [hfound, hu.addr _ hlast, hu.birth _ hlast]
    exact ⟨Nat.le_trans hlast hu.last, hp, hg⟩
  done := by
    intro res hpc
    rw [hu.thread] at hpc
    rw [hfound]
    exact (h.done res hpc).undisturbed hu

theorem Phase.undisturbed {pc : Pc} (h : Phase s t pc) (hu : Undisturbed t s.queue s'.queue)
    (hfound : s'.found t = s.found t) : Phase s' t pc := by
  cases pc with
  | out => trivial
  | protectHead => exact Finds.undisturbed h hu hfound
  | protectTail h₀ =>
      obtain ⟨hfinds, hkeeps, hprotects⟩ := h
      refine ⟨hfinds.undisturbed hu hfound, hkeeps.undisturbed hu, ?_⟩
      unfold Protects
      rw [hu.thread]
      exact hprotects
  | loadDeq h₀ k => exact ⟨h.1.undisturbed hu, h.2.undisturbed hu⟩
  | loadEnq hd k => exact Keeps.undisturbed h hu

theorem Sound.others (h : Sound s) (hinv : Inv s'.queue) {pc : Pc}
    (hpc : s'.pc = Function.update s.pc t pc) (hidle : pc ≠ .out → s'.queue.pc t = .idle)
    (hothers : ∀ t', t' ≠ t → Undisturbed t' s.queue s'.queue ∧ s'.found t' = s.found t')
    (hphase : Phase s' t pc) : Sound s' where
  inv := hinv
  idle := by
    intro t' ht'
    by_cases hne : t' = t
    · rw [hpc, hne, Function.update_self] at ht'
      rw [hne]
      exact hidle ht'
    · rw [hpc, Function.update_of_ne hne] at ht'
      rw [(hothers t' hne).1.pc]
      exact h.idle t' ht'
  phase := by
    intro t'
    by_cases hne : t' = t
    · rw [hpc, hne, Function.update_self]
      exact hphase
    · rw [hpc, Function.update_of_ne hne]
      exact (h.phase t').undisturbed (hothers t' hne).1 (hothers t' hne).2

theorem undisturbed_self (q : Recycling.State α) (t : Nat) : Undisturbed t q q :=
  ⟨rfl, rfl, rfl, fun _ _ => ⟨rfl, rfl⟩, fun _ _ => rfl, fun _ _ => rfl, Nat.le_refl _,
    Nat.le_refl _⟩

theorem Sound.move (h : Sound s) {pc : Pc} (hqueue : s'.queue = s.queue)
    (hfound : s'.found = s.found) (hpc : s'.pc = Function.update s.pc t pc)
    (hidle : pc ≠ .out → s.queue.pc t = .idle) (hphase : Phase s' t pc) : Sound s' := by
  refine h.others (by rw [hqueue]; exact h.inv) hpc (by rw [hqueue]; exact hidle) ?_ hphase
  intro t' _
  rw [hqueue, hfound]
  exact ⟨undisturbed_self _ _, rfl⟩

/-! ### Steps inside the domain -/

theorem finds_off {pc : Hazard.Pc} (hpc : (s.queue.domain.thread t).pc = pc)
    (hoff : protecting pc = false) : Finds s t a where
  asking := by
    intro b hb
    rw [hpc] at hb
    cases pc with
    | protectLoad | protectCheck | protectPublish | protectValidate => cases hoff
    | _ => cases hb
  check := by
    intro b p g j hcheck
    rw [hcheck] at hpc
    rw [← hpc] at hoff
    cases hoff
  done := by
    intro res hdone
    rw [hdone] at hpc
    rw [← hpc] at hoff
    cases hoff

/-- What `protect` loads from `head_` or `tail_` is a live segment, and its place is noted. -/
theorem Sound.loads (h : Sound s) (ha : a < 2) (d : Hazard.State) :
    ∃ k, s.queue.domain.src a = some (s.queue.addr k) ∧ s.queue.Live k ∧
      (s.inside t (.load a) d).found t = k := by
  match a, ha with
  | 0, _ => exact ⟨_, h.inv.head, h.inv.live_head, Function.update_self ..⟩
  | 1, _ => exact ⟨_, h.inv.tail, h.inv.live_tail, Function.update_self ..⟩

theorem Sound.after_load (h : Sound s) (ha : a < 2) :
    Finds (s.inside t (.load a)
      (s.queue.domain.goto t (Hazard.afterLoad s.queue.domain a))) t a := by
  obtain ⟨k, hsrc, hlive, hfound⟩ :=
    h.loads (t := t) ha (s.queue.domain.goto t (Hazard.afterLoad s.queue.domain a))
  have hafter : Hazard.afterLoad s.queue.domain a =
      .protectCheck a (s.queue.addr k) (s.queue.domain.gen (s.queue.addr k)) 0 := by
    unfold Hazard.afterLoad
    rw [hsrc]
  have hpc : ((s.queue.domain.goto t (Hazard.afterLoad s.queue.domain a)).thread t).pc =
      .protectCheck a (s.queue.addr k) (s.queue.domain.gen (s.queue.addr k)) 0 :=
    (goto_pc ..).trans hafter
  exact {
    asking := by
      intro b hb
      exact (Option.some.inj ((congrArg asking hpc).symm.trans hb)).symm
    check := by
      intro b p g j hcheck
      obtain ⟨-, rfl, rfl, -⟩ := Hazard.Pc.protectCheck.inj (hpc.symm.trans hcheck)
      rw [hfound]
      exact ⟨hlive.1, rfl, h.inv.memory.gen k hlive⟩
    done := by
      intro res hdone
      cases hpc.symm.trans hdone }

theorem finds_on (h : Finds s t a) {b : Nat} {pc : Hazard.Pc}
    (hold : asking (s.queue.domain.thread t).pc = some b) (hnew : asking pc = some b)
    (hcheck : ∀ b p g j, pc = .protectCheck b p g j →
      ∃ i, (s.queue.domain.thread t).pc = .protectCheck b p g i)
    {d : Hazard.State} (hpc : (d.thread t).pc = pc) : Finds (s.inside t .other d) t a where
  asking := by
    intro c hc
    have hc' : some b = some c := hnew.symm.trans ((congrArg asking hpc).symm.trans hc)
    rw [← Option.some.inj hc']
    exact h.asking b hold
  check := by
    intro c p g j hc
    obtain ⟨i, hi⟩ := hcheck c p g j (hpc.symm.trans hc)
    exact h.check c p g i hi
  done := by
    intro res hdone
    rw [hpc.symm.trans hdone] at hnew
    cases hnew

theorem finds_done {d : Hazard.State} {r i p g : Nat} {res : Option Nat}
    (hdomain : s.queue.domain = (d.returnSlot r i g).goto t (.done res))
    (hbound : (d.thread t).tls = some r) (hhp : (d.record r).hp i = some p)
    (hlast : s.found t ≤ s.queue.queue.last) (hp : p = s.queue.addr (s.found t))
    (hg : g = s.queue.birth (s.found t)) : Finds s t a := by
  have hpc : (s.queue.domain.thread t).pc = .done res := by
    rw [hdomain]
    exact goto_pc ..
  exact {
    asking := by
      intro b hb
      exact absurd ((congrArg asking hpc).symm.trans hb) nofun
    check := by
      intro b q g' j hcheck
      cases hpc.symm.trans hcheck
    done := by
      intro _ _
      rw [hp] at hhp
      have hholds : Holds { s.queue with domain := (d.returnSlot r i g).goto t (.done res) } t
          (s.found t) :=
        holds_done (q := { s.queue with domain := d }) hbound hhp hg
      rw [← hdomain] at hholds
      exact ⟨hlast, hholds⟩ }

theorem Sound.finds_inside (h : Sound s) (hfinds : Finds s t a) (ha : a < 2) {d : Hazard.State}
    (hmidway : (s.queue.domain.thread t).pc ≠ .idle)
    (hunfinished : ∀ result, (s.queue.domain.thread t).pc ≠ .done result)
    (hown : ∀ a v, e ≠ .store a v) (hstep : Hazard.Step s.queue.domain t e d) :
    Finds (s.inside t e d) t a := by
  cases hstep with
  | store b v => exact absurd rfl (hown b v)
  | acquire pc unbound => exact absurd pc hmidway
  | acquireLook r rest pc =>
      refine finds_off (goto_pc ..) ?_
      split <;> rfl
  | acquireTaken r rest pc used => exact finds_off (goto_pc ..) rfl
  | acquireTake r rest pc free => exact finds_off (Recycling.setRec_pc ..) rfl
  | acquireNew pc => exact finds_off (goto_pc ..) rfl
  | acquirePush r pc => exact finds_off (Recycling.setRec_pc ..) rfl
  | acquireRetry r l pc => exact finds_off (goto_pc ..) rfl
  | acquireCount pc => exact finds_off (goto_pc ..) rfl
  | protect r b pc bound => exact absurd pc hmidway
  | protectLoad b pc =>
      obtain rfl := hfinds.asking b (by rw [pc]; rfl)
      exact h.after_load ha
  | protectHit r b p g i pc bound more hit =>
      obtain ⟨hlast, hp, hg⟩ := hfinds.check b p g i pc
      exact finds_done rfl bound hit hlast hp hg
  | protectMiss r b p g i pc bound more miss =>
      refine finds_on hfinds (b := b) (by rw [pc]; rfl) rfl (fun b p' g' j hcheck => ?_)
        (goto_pc ..)
      cases hcheck
      exact ⟨i, pc⟩
  | protectFull b p g pc =>
      refine finds_on hfinds (b := b) (by rw [pc]; rfl) rfl (fun b p' g' j hcheck => ?_)
        (goto_pc ..)
      cases hcheck
  | protectPublish r b p pc bound =>
      refine finds_on hfinds (b := b) (by rw [pc]; rfl) rfl (fun b p' g' j hcheck => ?_)
        (goto_pc ..)
      cases hcheck
  | protectValidate r b p i pc bound again =>
      obtain rfl := hfinds.asking b (by rw [pc]; rfl)
      obtain ⟨k, hsrc, hlive, hfound⟩ := h.loads (t := t) ha
        ((s.queue.domain.returnSlot r i (s.queue.domain.gen p)).goto t (.done (some p)))
      obtain rfl : p = s.queue.addr k := Option.some.inj (again.symm.trans hsrc)
      have htidy := (Hazard.slots_of_runs h.inv.runs).tidy t r bound
      refine finds_done rfl bound (htidy.validating b _ i pc).2 ?_ ?_ ?_
      · rw [hfound]
        exact hlive.1
      · rw [hfound]
        rfl
      · rw [hfound]
        exact h.inv.memory.gen k hlive
  | protectAgain b p i pc changed =>
      obtain rfl := hfinds.asking b (by rw [pc]; rfl)
      exact h.after_load ha
  | protectReturn result pc => exact absurd pc (hunfinished result)
  | retire r p pc bound once => exact absurd pc hmidway
  | retireCount r pc bound =>
      refine finds_off (goto_pc ..) ?_
      split <;> rfl
  | scan r pc bound => exact absurd pc hmidway
  | collect r which leaving hz rest pc =>
      refine finds_off (goto_pc ..) ?_
      split <;> rfl
  | collectSlot r i which leaving hz rest pc more => exact finds_off (goto_pc ..) rfl
  | collectNext r which leaving hz rest pc => exact finds_off (goto_pc ..) rfl
  | collectEnd which leaving hz pc => exact finds_off (goto_pc ..) rfl
  | siftKeep r which leaving hz x kept rest pc bound next hazard =>
      have hthread := congrFun (Hazard.setList_thread s.queue.domain r (kept ++ [x]) rest which) t
      exact finds_off ((congrArg Hazard.Thread.pc hthread).trans pc) rfl
  | siftDelete r which leaving hz x kept rest pc bound next free =>
      have hthread := congrFun (Hazard.setList_thread s.queue.domain r kept rest which) t
      exact finds_off ((congrArg Hazard.Thread.pc hthread).trans pc) rfl
  | siftEnd r which leaving hz kept pc bound finished =>
      refine finds_off (goto_pc ..) ?_
      cases which <;> rfl
  | tryLockFail leaving pc =>
      refine finds_off (goto_pc ..) ?_
      cases leaving <;> rfl
  | tryLock leaving pc unlocked =>
      refine finds_off (goto_pc ..) ?_
      split <;> rfl
  | unlock leaving pc =>
      refine finds_off (goto_pc ..) ?_
      cases leaving <;> rfl
  | release r pc bound => exact absurd pc hmidway
  | releaseNone r pc bound empty => exact finds_off (goto_pc ..) rfl
  | releaseOrphans r pc bound left unlocked => exact finds_off (goto_pc ..) rfl
  | releaseSlot r i pc bound more => exact finds_off (goto_pc ..) rfl
  | releaseRecord r pc bound => exact finds_off (Recycling.setRec_pc ..) rfl

/-- In the second `protect` the slot of the first is spared. -/
theorem Sound.keeps_inside (h : Sound s) (hkeeps : Keeps s t k)
    (hprotects : protecting (s.queue.domain.thread t).pc = true)
    (hspares : ∀ r a p, (s.queue.domain.thread t).tls = some r →
      (s.queue.domain.thread t).pc = .protectPublish a p →
      (s.queue.domain.record r).hp (s.queue.domain.record r).victim ≠ some (s.queue.addr k))
    {d : Hazard.State} (hunfinished : ∀ result, (s.queue.domain.thread t).pc ≠ .done result)
    (hown : ∀ a v, e ≠ .store a v) (hstep : Hazard.Step s.queue.domain t e d) :
    Keeps (s.inside t e d) t k ∧ protecting (d.thread t).pc = true := by
  obtain ⟨hlast, hholds⟩ := hkeeps
  -- a slot of the thread that holds the segment was returned for it
  have hgen : ∀ r i, (s.queue.domain.thread t).tls = some r →
      (s.queue.domain.record r).hp i = some (s.queue.addr k) →
      s.queue.domain.gen (s.queue.addr k) = s.queue.birth k := by
    intro r i hr hhp
    exact h.inv.memory.gen k (h.inv.holds_live hlast hholds)
  have hloads : ∀ a, protecting (Hazard.afterLoad s.queue.domain a) = true := by
    intro a
    unfold Hazard.afterLoad
    split <;> rfl
  cases hstep with
  | store b v => exact absurd rfl (hown b v)
  | protectLoad b pc =>
      refine ⟨⟨hlast, holds_goto hholds _⟩, ?_⟩
      rw [goto_pc]
      exact hloads b
  | protectHit r b p g i pc bound more hit =>
      have htidy := (Hazard.slots_of_runs h.inv.runs).tidy t r bound
      refine ⟨⟨hlast, holds_returnSlot hholds bound (fun hhp => ?_) _⟩, ?_⟩
      · have hp : p = s.queue.addr k := Option.some.inj (hit.symm.trans hhp)
        rw [← hgen r i bound hhp, ← hp]
        exact (htidy.checking b p g i pc i more hit).symm
      · rw [goto_pc]
        rfl
  | protectMiss r b p g i pc bound more miss =>
      refine ⟨⟨hlast, holds_goto hholds _⟩, ?_⟩
      rw [goto_pc]
      rfl
  | protectFull b p g pc =>
      refine ⟨⟨hlast, holds_goto hholds _⟩, ?_⟩
      rw [goto_pc]
      rfl
  | protectPublish r b p pc bound =>
      refine ⟨⟨hlast, holds_publish hholds bound (hspares r b p bound pc) p _⟩, ?_⟩
      rw [goto_pc]
      rfl
  | protectValidate r b p i pc bound again =>
      have htidy := (Hazard.slots_of_runs h.inv.runs).tidy t r bound
      refine ⟨⟨hlast, holds_returnSlot hholds bound (fun hhp => ?_) _⟩, ?_⟩
      · have hhp' := (htidy.validating b p i pc).2
        have hp : p = s.queue.addr k := Option.some.inj (hhp'.symm.trans hhp)
        rw [hp]
        exact hgen r i bound hhp
      · rw [goto_pc]
        rfl
  | protectAgain b p i pc changed =>
      refine ⟨⟨hlast, holds_goto hholds _⟩, ?_⟩
      rw [goto_pc]
      exact hloads b
  | protectReturn result pc => exact absurd pc (hunfinished result)
  | _ =>
      rename (s.queue.domain.thread t).pc = _ => pc
      rw [pc] at hprotects
      cases hprotects

theorem foreign_inside {q : Recycling.State α} {d : Hazard.State}
    (hmidway : (q.domain.thread t).pc ≠ .idle) (hown : ∀ a v, e ≠ .store a v)
    (hstep : Hazard.Step q.domain t e d) : q.Foreign e := by
  cases hstep with
  | store a v => exact absurd rfl (hown a v)
  | retire r p pc bound once => exact absurd pc hmidway
  | _ => trivial

theorem found_others (s : State α) (e : Hazard.Event) (d : Hazard.State) {t' : Nat}
    (hne : t' ≠ t) : (s.inside t e d).found t' = s.found t' := by
  cases e with
  | load a => cases a <;> exact Function.update_of_ne hne ..
  | store | retire | other => rfl

/-- A step of a thread in the domain, from where it is in `size_relaxed`. -/
theorem Sound.domain (h : Sound s) {d : Hazard.State} (hguarded : Recycling.Guarded s.queue t e)
    (hidle : s.queue.pc t = .idle) (hforeign : s.queue.Foreign e)
    (hstep : Hazard.Step s.queue.domain t e d) {found : Nat → Nat}
    (hfound : ∀ t', t' ≠ t → found t' = s.found t')
    (hphase : Phase { s.setDomain d with found := found } t (s.pc t)) :
    Sound { s.setDomain d with found := found } := by
  have hinv := h.inv.client hguarded hidle hforeign hstep
  refine h.others (t := t) hinv (Function.update_eq_self ..).symm (fun _ => hidle) ?_ hphase
  intro t' hne
  exact ⟨Recycling.undisturbed_domain h.inv hstep hne rfl rfl rfl rfl rfl rfl, hfound t' hne⟩

theorem Sound.inside (h : Sound s) (hok : Sparing s t e) {d : Hazard.State}
    (hbusy : source (s.pc t) ≠ none) (hmidway : (s.queue.domain.thread t).pc ≠ .idle)
    (hunfinished : ∀ result, (s.queue.domain.thread t).pc ≠ .done result)
    (hown : ∀ a v, e ≠ .store a v) (hstep : Hazard.Step s.queue.domain t e d) :
    Sound (s.inside t e d) := by
  have hphase := h.phase t
  have hout : s.pc t ≠ .out := by
    intro hout
    rw [hout] at hbusy
    exact hbusy rfl
  refine h.domain hok.1 (h.idle t hout) (foreign_inside hmidway hown hstep) hstep
    (fun t' hne => found_others s e d hne) ?_
  cases hpc : s.pc t with
  | out => exact absurd hpc hout
  | protectHead =>
      rw [hpc] at hphase
      exact h.finds_inside hphase (by decide) hmidway hunfinished hown hstep
  | protectTail h₀ =>
      rw [hpc] at hphase
      obtain ⟨hfinds, hkeeps, hprotects⟩ := hphase
      have hspares := fun r a p => hok.2 h₀ r a p hpc
      obtain ⟨hkeeps', hprotects'⟩ := h.keeps_inside hkeeps (hprotects.resolve_left hmidway)
        hspares hunfinished hown hstep
      exact ⟨h.finds_inside hfinds (by decide) hmidway hunfinished hown hstep, hkeeps',
        Or.inr hprotects'⟩
  | loadDeq | loadEnq =>
      rw [hpc] at hbusy
      exact absurd rfl hbusy

theorem guarded_other (q : Recycling.State α) (t : Nat) : Recycling.Guarded q t .other :=
  fun _ => nofun

theorem Sound.protect (h : Sound s) {r : Nat} (hpc : source (s.pc t) = some a)
    (houtside : (s.queue.domain.thread t).pc = .idle)
    (hbound : (s.queue.domain.thread t).tls = some r) :
    Sound (s.setDomain (s.queue.domain.goto t (.protectLoad a))) := by
  have hphase := h.phase t
  have hstep := Hazard.Step.protect (s := s.queue.domain) t r a houtside hbound
  have hnew := goto_pc s.queue.domain t (.protectLoad a)
  have hfinds : Finds (s.setDomain (s.queue.domain.goto t (.protectLoad a))) t a := {
    asking := fun b hb => (Option.some.inj ((congrArg asking hnew).symm.trans hb)).symm
    check := fun b p g j hcheck => by cases hnew.symm.trans hcheck
    done := fun res hdone => by cases hnew.symm.trans hdone }
  have hidle : s.queue.pc t = .idle := by
    refine h.idle t fun hout => ?_
    rw [hout] at hpc
    cases hpc
  refine h.domain (e := .other) (guarded_other _ _) hidle trivial hstep (fun _ _ => rfl) ?_
  cases hq : s.pc t with
  | protectHead =>
      rw [hq] at hpc
      cases hpc
      exact hfinds
  | protectTail h₀ =>
      rw [hq] at hpc hphase
      cases hpc
      exact ⟨hfinds, ⟨hphase.2.1.1, holds_goto hphase.2.1.2 _⟩, Or.inr (congrArg protecting hnew)⟩
  | _ =>
      rw [hq] at hpc
      cases hpc

theorem Sound.obtained (h : Sound s) {p : Nat} {pc : Pc} (hbusy : source (s.pc t) = some a)
    (hfinished : (s.queue.domain.thread t).pc = .done (some p))
    (hphase : ∀ {s' : State α}, (∀ k, Keeps s t k → Keeps s' t k) →
      (s'.queue.domain.thread t).pc = .idle → Phase s' t (s.pc t) ∧ Phase s' t pc) :
    Sound (s.obtained t pc) := by
  have hstep := Hazard.Step.protectReturn (s := s.queue.domain) t (some p) hfinished
  have hidle : s.queue.pc t = .idle := by
    refine h.idle t fun hout => ?_
    rw [hout] at hbusy
    cases hbusy
  have hkeeps : ∀ k, Keeps s t k →
      Keeps (s.setDomain (s.queue.domain.goto t .idle)) t k :=
    fun k hk => ⟨hk.1, holds_goto hk.2 _⟩
  have hreturned : Sound (s.setDomain (s.queue.domain.goto t .idle)) :=
    h.domain (e := .other) (guarded_other _ _) hidle trivial hstep (fun _ _ => rfl)
      (hphase hkeeps (goto_pc ..)).1
  have hnext : ∀ k, Keeps s t k → Keeps (s.obtained t pc) t k := hkeeps
  exact hreturned.move rfl rfl rfl (fun _ => hidle) (hphase hnext (goto_pc ..)).2

theorem finds_idle (hidle : (s.queue.domain.thread t).pc = .idle) : Finds s t a :=
  finds_off hidle rfl

theorem Sound.step (h : Sound s) (hok : Sparing s t e) (hstep : Step size s t e s') :
    Sound s' := by
  have hphase := h.phase t
  cases hstep with
  | queue e q out hstep =>
      refine h.others (h.inv.step hok.1 hstep) (Function.update_eq_self ..).symm
        (fun hbusy => absurd out hbusy) (fun t' hne => ?_) ?_
      · exact ⟨Recycling.step_undisturbed h.inv hstep hne, rfl⟩
      · rw [out]
        trivial
  | call out idle outside =>
      exact h.move rfl rfl rfl (fun _ => idle) (finds_idle outside)
  | bind pc outside unbound =>
      have hidle : s.queue.pc t = .idle := h.idle t (by rw [pc]; nofun)
      have hacquire := Hazard.Step.acquire (s := s.queue.domain) t outside unbound
      refine h.domain (e := .other) (guarded_other _ _) hidle trivial hacquire (fun _ _ => rfl) ?_
      rw [pc]
      exact finds_off (goto_pc ..) rfl
  | protect a r pc outside bound => exact h.protect pc outside bound
  | inside e d busy midway unfinished own hstep =>
      exact h.inside hok busy midway unfinished own hstep
  | obtainedHead p pc finished =>
      rw [pc] at hphase
      have hfound := Finds.done hphase _ finished
      refine h.obtained (a := 0) (by rw [pc]; rfl) finished fun hkeeps hidle => ?_
      rw [pc]
      exact ⟨finds_idle hidle, finds_idle hidle, hkeeps _ hfound, Or.inl hidle⟩
  | obtainedTail h₀ p pc finished =>
      rw [pc] at hphase
      obtain ⟨hfinds, hhead, -⟩ := hphase
      have hfound := hfinds.done _ finished
      refine h.obtained (a := 1) (by rw [pc]; rfl) finished fun hkeeps hidle => ?_
      rw [pc]
      exact ⟨⟨finds_idle hidle, hkeeps _ hhead, Or.inl hidle⟩, hkeeps _ hhead, hkeeps _ hfound⟩
  | loadDeq h₀ k pc =>
      rw [pc] at hphase
      exact h.move rfl rfl rfl (fun _ => h.idle t (by rw [pc]; nofun)) hphase.2
  | loadEnq hd k pc => exact h.move rfl rfl rfl (fun hne => absurd rfl hne) trivial

theorem sound_new : Sound (State.new : State α) where
  inv := Recycling.inv_new
  idle _ hne := absurd rfl hne
  phase _ := trivial

theorem Sound.safe (h : Sound s) : Safe s where
  read := by
    intro t k hk
    have hphase := h.phase t
    have hlive : ∀ {k}, Keeps s t k → s.queue.segment k ∉ s.queue.domain.deleted :=
      fun hkeeps => (h.inv.holds_live hkeeps.1 hkeeps.2).2
    cases hpc : s.pc t with
    | loadDeq h₀ k₀ =>
        rw [hpc] at hphase hk
        rcases List.mem_pair.mp hk with rfl | rfl
        · exact hlive hphase.1
        · exact hlive hphase.2
    | loadEnq hd k₀ =>
        rw [hpc] at hphase hk
        rw [List.mem_singleton.mp hk]
        exact hlive hphase
    | _ =>
        rw [hpc] at hk
        exact absurd hk List.not_mem_nil
  slot := by
    intro t h₀ k hpc
    have hphase := h.phase t
    rw [hpc] at hphase
    obtain ⟨-, r, i, htls, hhp, hreturned⟩ := hphase.1
    have htidy := (Hazard.slots_of_runs h.inv.runs).tidy t r htls
    exact ⟨r, i, htls, (htidy.returned i _ hreturned).1, hhp⟩

/-- In every run in which the loads of `tail_` are guarded and the second `protect` of a call
spares the slot of the first, `size_relaxed` reads only segments that were not handed to their
deleter. -/
theorem safe_of_sparingRuns (h : Runs size Sparing s) : Safe s := by
  have hsound : Sound s :=
    h.holds (fun hs => hs ▸ sound_new) fun _ ih hstep meets => ih.step meets hstep
  exact hsound.safe

end Uvent.Queue.Sizing
