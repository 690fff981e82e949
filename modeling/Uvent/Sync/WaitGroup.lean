import Uvent.Sync.SuspensionRuns

/-!
# `WaitGroup`

A counter and the list of the coroutines that wait for it to be zero.  `wait()` looks at
the counter, suspends in an `OpWait` that looks again behind its push, and starts over
when it is woken.  Of the operations that can bring the counter to zero `done()` wakes
the list, and `add` with a negative argument does not.

Every access to the counter is a step, and the suspensions are those of
`Uvent.Sync.Suspension` in the build with `UVENT_ENABLE_REUSEADDR`.
-/

namespace Uvent.Sync.WaitGroup

open Uvent.Sync.Suspension

/-- Where a call of `done()` is: behind the decrement to zero, and behind the look at
the list. -/
inductive DonePc where
  | idle
  | notify
  | wake
  deriving DecidableEq, Repr

/-- Where a coroutine is in `wait()`: at `try_complete`, in `co_await`, or out of it. -/
inductive CallPc where
  | out
  | trying
  | awaiting
  | returned (b : Bool)
  deriving DecidableEq, Repr

def CallPc.inside : CallPc → Bool
  | .trying | .awaiting => true
  | .out | .returned _ => false

/-- `zeroSeen` is not of the program: whether the counter has been zero since the call
of the coroutine began. -/
structure State where
  cnt : Int
  waits : Suspension.State Unit
  dones : Nat → DonePc
  calls : Nat → CallPc
  zeroSeen : Nat → Bool

def State.new : State := ⟨0, .new, fun _ => .idle, fun _ => .out, fun _ => false⟩

/-- The suspension of a `WaitOp`. -/
def waitOp : Wait Unit := .op ()

namespace State

def setDone (s : State) (d : Nat) (pc : DonePc) : State :=
  { s with dones := Function.update s.dones d pc }

def setCall (s : State) (t : Nat) (pc : CallPc) : State :=
  { s with calls := Function.update s.calls t pc }

def add (s : State) (n : Int) : State := { s with cnt := s.cnt + n }

def done (s : State) (d : Nat) : State :=
  { s with cnt := s.cnt - 1 }.setDone d (if s.cnt = 1 then .notify else .idle)

def notify (s : State) (d : Nat) : State :=
  s.setDone d (if (s.waits.lists ()).emptyRelaxed then .idle else .wake)

/-- The loop of `done()` under the lock of the list. -/
def wakeAll (s : State) (d : Nat) : State :=
  { s with waits := s.waits.wake () (s.waits.lists ()).length }.setDone d .idle

def call (s : State) (t : Nat) : State :=
  { s with zeroSeen := Function.update s.zeroSeen t false }.setCall t .trying

/-- `try_complete`, and the begin of the suspension where it fails. -/
def tryComplete (s : State) (t : Nat) : State :=
  if s.cnt = 0 then s.setCall t (.returned true)
  else { s with waits := s.waits.set t ((s.waits.coros t).start waitOp) }.setCall t .awaiting

def again (s : State) (t : Nat) : State :=
  s.setCall t (if (s.waits.coros t).answer then .trying else .returned false)

def observe (s : State) : State :=
  { s with zeroSeen := fun t => s.zeroSeen t || ((s.calls t).inside && decide (s.cnt = 0)) }

end State

/-- A step inside the suspensions; the check behind the push reads the counter. -/
inductive OpStep (cnt : Int) (w : Suspension.State Unit) : Suspension.State Unit → Prop where
  | request (t : Nat) : OpStep cnt w (w.set t { w.coros t with requested := true })
  | check (t : Nat) (h : (w.coros t).phase = .check waitOp) :
      OpStep cnt w (w.set t (if (w.coros t).requested then (w.coros t).ownCancel
        else { w.coros t with phase := waitOp.attachFrom 0 }))
  | attach (t : Nat) (h : (w.coros t).phase = .attach waitOp 0) : OpStep cnt w (w.attach t waitOp 0)
  | look (t : Nat) (h : (w.coros t).phase = .look waitOp 0) :
      OpStep cnt w (w.look t waitOp 0 (decide (cnt ≠ 0)))
  | undo (t : Nat) (h : (w.coros t).phase = .undo ()) : OpStep cnt w (w.undo t ())
  | arm (t : Nat) (h : (w.coros t).phase = .arm waitOp) : OpStep cnt w (w.arm t waitOp)
  | withdraw (t : Nat) (h : (w.coros t).phase = .withdraw waitOp) :
      OpStep cnt w (w.withdraw t waitOp)
  | resume (t : Nat) (h : (w.coros t).phase = .suspended waitOp) (hqueued : 0 < (w.coros t).queued) :
      OpStep cnt w (w.set t { w.coros t with
        queued := (w.coros t).queued - 1, hook := none, phase := waitOp.resume })
  | resumed (t : Nat) (h : (w.coros t).phase = .resumed ()) : OpStep cnt w (w.resumed t ())
  | onCancel (t : Nat) (h : (w.coros t).hook = some waitOp) : OpStep cnt w (w.onCancel t waitOp)
  | storeOwn (t : Nat) (h : (w.coros t).hookPc = .store) :
      OpStep cnt w (w.set t { w.coros t with winner := .cancelled, hookPc := .enqueue })
  | enqueueSelf (t : Nat) (h : (w.coros t).hookPc = .enqueue) :
      OpStep cnt w (w.set t { (w.coros t).enqueue (w.coros t).turn with hookPc := .idle })

/-- A step; `adds` says which calls of `add` are made in which states. -/
inductive Step (adds : State → Int → Prop) (s : State) : State → Prop where
  | add (n : Int) (h : adds s n) : Step adds s (s.add n)
  | done (d : Nat) (h : s.dones d = .idle) : Step adds s (s.done d)
  | notify (d : Nat) (h : s.dones d = .notify) : Step adds s (s.notify d)
  | wakeAll (d : Nat) (h : s.dones d = .wake) : Step adds s (s.wakeAll d)
  | call (t : Nat) (h : (s.calls t).inside = false) : Step adds s (s.call t)
  | tryComplete (t : Nat) (h : s.calls t = .trying) (hphase : (s.waits.coros t).phase = .running) :
      Step adds s (s.tryComplete t)
  | again (t : Nat) (h : s.calls t = .awaiting) (hphase : (s.waits.coros t).phase = .running) :
      Step adds s (s.again t)
  | op (waits : Suspension.State Unit) (h : OpStep s.cnt s.waits waits) :
      Step adds s { s with waits := waits }

inductive Runs (adds : State → Int → Prop) : State → Prop where
  | start : Runs adds .new
  | step {s s' : State} (hs : Runs adds s) (h : Step adds s s') : Runs adds s'.observe

/-! ## What is claimed of a state -/

def settled : Phase Unit → Bool
  | .arm _ | .withdraw _ | .suspended _ => true
  | _ => false

def State.Parked (s : State) (t : Nat) : Prop :=
  s.calls t = .awaiting ∧ (s.waits.coros t).phase = .suspended waitOp

/-- Nothing is running or scheduled: no `done()` is on its way, no coroutine is in a call
but the parked ones, no handle is in a run queue and no `on_cancel` is on its way. -/
structure State.Quiet (s : State) : Prop where
  dones : ∀ d, s.dones d = .idle
  calls : ∀ t, (s.calls t).inside = true → s.Parked t
  queued : ∀ t, (s.waits.coros t).queued = 0
  hooks : ∀ t, (s.waits.coros t).hookPc = .idle

/-- `wait()` has returned true only where the counter has been zero during the call, and
nobody is left parked at zero. -/
structure State.Right (s : State) : Prop where
  zero : ∀ t, s.calls t = .returned true → s.zeroSeen t = true
  awake : s.Quiet → ∀ t, s.Parked t → s.cnt ≠ 0

def AnyAdd (_ : State) (_ : Int) : Prop := True

/-- The call of `add` does not bring the counter to zero while a coroutine that has looked
at it behind its push is in the list and no `done()` is on its way to the list. -/
def Harmless (s : State) (n : Int) : Prop :=
  s.cnt ≠ 0 → s.cnt + n = 0 → (∀ d, s.dones d = .idle) →
    ∀ node ∈ s.waits.lists (), settled (s.waits.coros node.coro).phase = false

/-! ## The suspensions -/

theorem OpStep.step {cnt : Int} {w w' : Suspension.State Unit} (h : OpStep cnt w w') :
    Suspension.Step true w w' := by
  cases h with
  | request t => exact .request t
  | check t h => exact .check t waitOp h
  | attach t h => exact .attach t waitOp 0 h
  | look t h => exact .look t waitOp 0 _ h nofun
  | undo t h => exact .undo t () h
  | arm t h => exact .arm t waitOp h
  | withdraw t h => exact .withdraw t waitOp h
  | resume t h hqueued => exact .resume t waitOp h hqueued
  | resumed t h => exact .resumed t () h
  | onCancel t h => exact .onCancel t waitOp rfl h
  | storeOwn t h => exact .storeOwn t h
  | enqueueSelf t h => exact .enqueueSelf t h

theorem waits_of_runs {adds : State → Int → Prop} {s : State} (h : Runs adds s) :
    Suspension.Runs true s.waits := by
  induction h with
  | start => exact .start
  | step _ hstep ih =>
      cases hstep with
      | add n => exact ih
      | done d => exact ih
      | notify d => exact ih
      | wakeAll d => exact ih.step (.wake () _)
      | call t => exact ih
      | tryComplete t h hphase =>
          unfold State.tryComplete
          split
          · exact ih
          · exact ih.step (.start t waitOp hphase)
      | again t => exact ih
      | op waits h => exact ih.step h.step

/-! ## Nobody waits at zero unless a `done()` is on its way -/

/-- The node is in the list, and its coroutine has looked at the counter behind the push. -/
def Waiting (w : Suspension.State Unit) (node : Node) : Prop :=
  node ∈ w.lists () ∧ settled (w.coros node.coro).phase = true

section Waiting

variable {w w₀ : Suspension.State Unit} {t : Nat} {c : Coro Unit} {node : Node}

/-- One coroutine changes, and no node joins the list. -/
theorem Waiting.of_set (h : Waiting (w₀.set t c) node)
    (hlists : ∀ n ∈ w₀.lists (), n ∈ w.lists ()) (hcoros : w₀.coros = w.coros)
    (hsettled : settled c.phase = true → settled (w.coros t).phase = true) : Waiting w node := by
  obtain ⟨hmem, hphase⟩ := h
  refine ⟨hlists node hmem, ?_⟩
  have hset : (w₀.set t c).coros = Function.update w.coros t c := by
    rw [Suspension.State.set, hcoros]
  rw [hset] at hphase
  by_cases ht : node.coro = t
  · rw [ht, Function.update_self] at hphase
    rw [ht]
    exact hsettled hphase
  · rw [Function.update_of_ne ht] at hphase
    exact hphase

theorem Waiting.of_set_self (h : Waiting (w.set t c) node)
    (hsettled : settled c.phase = true → settled (w.coros t).phase = true) : Waiting w node :=
  h.of_set (fun _ hn => hn) rfl hsettled

theorem mem_remove {n : Node} (h : n ∈ (w.remove t 0 ()).2.lists ()) : n ∈ w.lists () := by
  simp only [Suspension.State.remove, Suspension.State.setList, Function.update_self] at h
  exact List.mem_of_mem_erase h

theorem Waiting.of_remove (h : Waiting ((w.remove t 0 ()).2.set t c) node)
    (hsettled : settled c.phase = true → settled (w.coros t).phase = true) : Waiting w node :=
  h.of_set (fun _ hn => mem_remove hn) rfl hsettled

/-- A node that was not there to be removed leaves no node of its coroutine behind. -/
theorem Waiting.of_undo (hinv : Inv w) (hphase : (w.coros t).phase = .undo ())
    (h : Waiting (w.undo t ()) node) : Waiting w node := by
  rw [Suspension.State.undo_eq] at h
  by_cases hlink : w.Link t 0 ()
  · rw [if_pos ((w.remove_fst t 0 ()).mpr hlink)] at h
    exact h.of_remove nofun
  · rw [if_neg ((w.remove_fst t 0 ()).not.mpr hlink)] at h
    obtain ⟨hmem, hsettled⟩ := h
    have hmem := mem_remove hmem
    by_cases ht : node.coro = t
    · have hturn := hinv.turns () node hmem
      have hplace := (hinv.coros t).place node.index ()
      have hnode : w.node t node.index = node := by
        rw [Suspension.State.node, ← ht, ← hturn]
      rw [Suspension.State.Link, hnode, hphase] at hplace
      have hindex : node.index = 0 := by
        by_contra hne
        have hnone := hplace hmem
        simp [Phase.place, hne] at hnone
      rw [hindex] at hnode
      refine absurd ?_ hlink
      rw [Suspension.State.Link, hnode]
      exact hmem
    · refine ⟨hmem, ?_⟩
      change settled (Function.update w.coros t _ node.coro).phase = true at hsettled
      rw [Function.update_of_ne ht] at hsettled
      exact hsettled

theorem Waiting.of_attach (h : Waiting (w.attach t waitOp 0) node) : Waiting w node := by
  obtain ⟨hmem, hsettled⟩ := h
  have hattach : w.attach t waitOp 0 =
      (w.push t 0 ()).set t { w.coros t with phase := .look waitOp 0 } := rfl
  rw [hattach] at hmem hsettled
  have hcoros : ((w.push t 0 ()).set t { w.coros t with phase := .look waitOp 0 }).coros =
      Function.update w.coros t { w.coros t with phase := .look waitOp 0 } := rfl
  have ht : node.coro ≠ t := by
    intro ht
    rw [hcoros, ht, Function.update_self] at hsettled
    exact absurd hsettled nofun
  rw [hcoros, Function.update_of_ne ht] at hsettled
  refine ⟨?_, hsettled⟩
  change node ∈ Function.update w.lists () ((w.lists ()).pushLocked (w.node t 0)) () at hmem
  rw [Function.update_self, WaitList.pushLocked, List.mem_append] at hmem
  obtain hold | hnew := hmem
  · exact hold
  · exact absurd (congrArg Node.coro (List.mem_singleton.mp hnew)) ht

/-- At zero nobody gets behind the look at the counter and stays in the list. -/
theorem OpStep.waiting {w' : Suspension.State Unit} (hinv : Inv w) (h : OpStep 0 w w')
    (hnode : Waiting w' node) : Waiting w node := by
  cases h with
  | request t => exact hnode.of_set_self fun hs => hs
  | check t h =>
      refine hnode.of_set_self fun hs => ?_
      split at hs <;> exact absurd hs nofun
  | attach t h => exact hnode.of_attach
  | look t h => exact hnode.of_set_self nofun
  | undo t h => exact hnode.of_undo hinv h
  | arm t h =>
      have hold : settled (w.coros t).phase = true := by rw [h]; rfl
      exact hnode.of_set_self fun _ => hold
  | withdraw t h =>
      have hold : settled (w.coros t).phase = true := by rw [h]; rfl
      rw [waitOp, Suspension.State.withdraw_op] at hnode
      exact hnode.of_remove fun _ => hold
  | resume t h hqueued => exact hnode.of_set_self nofun
  | resumed t h => exact hnode.of_remove nofun
  | onCancel t h =>
      rw [waitOp, Suspension.State.onCancel_op] at hnode
      refine hnode.of_remove fun hs => ?_
      split at hs <;> exact hs
  | storeOwn t h => exact hnode.of_set_self fun hs => hs
  | enqueueSelf t h => exact hnode.of_set_self fun hs => hs

/-- A parked coroutine that nobody has woken has its node in the list. -/
theorem waiting_of_parked (hinv : Inv w) (hphase : (w.coros t).phase = .suspended waitOp)
    (hqueued : (w.coros t).queued = 0) (hhook : (w.coros t).hookPc = .idle) :
    Waiting w (w.node t 0) := by
  have hok := hinv.coros t
  obtain ⟨hopen, -⟩ := hok.at_kind (show (w.coros t).phase.kind = .parked by rw [hphase]; rfl)
  obtain ⟨who, haccount, htimers⟩ := hopen.account
  rw [← hopen.queued, hqueued, hhook] at haccount
  have hwinner : (w.coros t).winner = .none := by
    generalize hwin : (w.coros t).winner = win at haccount
    cases haccount with
    | quiet => rfl
    | firing k =>
        -- only the timer of a `SleepOp` fires a suspension in two steps
        obtain ⟨n, htimer⟩ := (htimers k).mpr rfl
        have hplace := ((hok.sleeps k).enqueue n htimer).2
        rw [hphase] at hplace
        cases k with
        | zero => exact absurd hplace nofun
        | succ k => exact absurd hplace nofun
  refine ⟨?_, by change settled (w.coros t).phase = true; rw [hphase]; rfl⟩
  exact hopen.linked (by rw [hphase]; rfl) hwinner hhook 0 () (by rw [hphase]; rfl)

end Waiting

/-- At zero a `done()` is on its way to the list, or nobody waits in it. -/
def Watched (s : State) : Prop :=
  s.cnt = 0 → (∀ d, s.dones d = .idle) → ∀ node, ¬Waiting s.waits node

structure Seen (s : State) : Prop where
  inside : ∀ t, (s.calls t).inside = true → s.cnt = 0 → s.zeroSeen t = true
  returned : ∀ t, s.calls t = .returned true → s.zeroSeen t = true

section Steps

variable {adds : State → Int → Prop} {s s' : State}

theorem Watched.step (h : Watched s) (hinv : Inv s.waits) (hstep : Step Harmless s s') :
    Watched s' := by
  intro hzero hidle node hnode
  cases hstep with
  | add n hharmless =>
      change s.cnt + n = 0 at hzero
      by_cases hcnt : s.cnt = 0
      · exact h hcnt hidle node hnode
      · have hfree := hharmless hcnt hzero hidle node hnode.1
        have hsettled : settled (s.waits.coros node.coro).phase = true := hnode.2
        rw [hsettled] at hfree
        exact absurd hfree nofun
  | done d hd =>
      -- the decrement that comes to zero puts this call on its way
      change s.cnt - 1 = 0 at hzero
      have hpc := hidle d
      simp only [State.done, State.setDone, Function.update_self] at hpc
      rw [if_pos (by omega)] at hpc
      exact absurd hpc nofun
  | notify d hd =>
      have hpc := hidle d
      simp only [State.notify, State.setDone, Function.update_self] at hpc
      split at hpc
      case isTrue hempty =>
        have hnil := List.isEmpty_iff.mp hempty
        have hmem : node ∈ s.waits.lists () := hnode.1
        rw [hnil] at hmem
        exact absurd hmem List.not_mem_nil
      case isFalse => exact absurd hpc nofun
  | wakeAll d hd =>
      have hmem : node ∈ (s.waits.wake () (s.waits.lists ()).length).lists () := hnode.1
      rw [Suspension.State.wake, Suspension.State.wakeLoop_all (Nat.le_refl _) (Nat.le_refl _)] at hmem
      exact absurd hmem List.not_mem_nil
  | call t hout => exact h hzero hidle node hnode
  | tryComplete t hcall hphase =>
      unfold State.tryComplete at hzero hidle hnode
      split at hzero
      case isTrue hcnt =>
        rw [if_pos hcnt] at hidle hnode
        exact h hcnt hidle node hnode
      case isFalse hcnt => exact hcnt hzero
  | again t hcall hphase => exact h hzero hidle node hnode
  | op waits hop =>
      have hcnt : s.cnt = 0 := hzero
      rw [hcnt] at hop
      exact h hcnt hidle node (hop.waiting hinv hnode)

theorem setCall_calls (s : State) (t u : Nat) (pc : CallPc) :
    (s.setCall t pc).calls u = if u = t then pc else s.calls u := by
  exact Function.update_apply s.calls t pc u

theorem Seen.step (h : Seen s) (hstep : Step adds s s') :
    ∀ t, s'.calls t = .returned true → s'.zeroSeen t = true := by
  intro u hu
  cases hstep with
  | add n => exact h.returned u hu
  | done d => exact h.returned u hu
  | notify d => exact h.returned u hu
  | wakeAll d => exact h.returned u hu
  | call t hout =>
      rw [State.call, setCall_calls] at hu
      split at hu
      case isTrue => exact absurd hu nofun
      case isFalse hne =>
        change Function.update s.zeroSeen t false u = true
        rw [Function.update_of_ne hne]
        exact h.returned u hu
  | tryComplete t hcall hphase =>
      unfold State.tryComplete at hu ⊢
      split at hu
      case isTrue hcnt =>
        rw [if_pos hcnt]
        rw [setCall_calls] at hu
        split at hu
        case isTrue heq =>
          rw [heq]
          exact h.inside t (by rw [hcall]; rfl) hcnt
        case isFalse => exact h.returned u hu
      case isFalse hcnt =>
        rw [if_neg hcnt]
        rw [setCall_calls] at hu
        split at hu
        case isTrue => exact absurd hu nofun
        case isFalse => exact h.returned u hu
  | again t hcall hphase =>
      rw [State.again, setCall_calls] at hu
      split at hu
      case isTrue =>
        split at hu
        case isTrue => exact absurd hu nofun
        case isFalse => exact absurd hu (by simp)
      case isFalse => exact h.returned u hu
  | op waits hop => exact h.returned u hu

theorem seen_observe (h : ∀ t, s.calls t = .returned true → s.zeroSeen t = true) :
    Seen s.observe where
  inside := by
    intro t hinside hzero
    change (s.calls t).inside = true at hinside
    change s.cnt = 0 at hzero
    simp [State.observe, hinside, hzero]
  returned := by
    intro t hcall
    change (s.zeroSeen t || _) = true
    rw [h t hcall, Bool.true_or]

theorem seen_of_runs (h : Runs adds s) : Seen s := by
  induction h with
  | start => exact ⟨fun t => nofun, fun t => nofun⟩
  | step _ hstep ih => exact seen_observe (ih.step hstep)

theorem watched_of_runs (h : Runs Harmless s) : Watched s := by
  induction h with
  | start => exact fun _ _ node hnode => absurd hnode.1 List.not_mem_nil
  | step hs hstep ih =>
      have hwatched := ih.step (inv_of_runs (waits_of_runs hs)) hstep
      exact fun hzero hidle => hwatched hzero hidle

/-- In a run whose calls of `add` are harmless, `wait()` returns true only where the
counter has been zero since it began, and nobody is left parked at zero. -/
theorem right_of_runs (h : Runs Harmless s) : s.Right where
  zero := (seen_of_runs h).returned
  awake := by
    intro hquiet t hparked hzero
    have hinv := inv_of_runs (waits_of_runs h)
    have hwaiting := waiting_of_parked hinv hparked.2 (hquiet.queued t) (hquiet.hooks t)
    exact watched_of_runs h hzero hquiet.dones _ hwaiting

end Steps

/-! ## A negative `add` strands a waiter -/

/-- The other way round: an `add` that brings the counter to zero while everybody sleeps
leaves whoever is parked there. -/
theorem not_right_of_add {s : State} {n : Int} {t : Nat} (hquiet : s.Quiet) (hparked : s.Parked t)
    (hzero : s.cnt + n = 0) : ¬(s.add n).observe.Right := fun hright =>
  hright.awake ⟨hquiet.dones, hquiet.calls, hquiet.queued, hquiet.hooks⟩ t hparked hzero

/-- `add(1)`, and one coroutine has parked in `wait()`. -/
theorem runs_parked {adds : State → Int → Prop} (h : adds .new 1) :
    ∃ s, Runs adds s ∧ s.cnt = 1 ∧ s.Quiet ∧ s.Parked 0 := by
  have h₁ := Runs.start.step (.add 1 h)
  have h₂ := h₁.step (.call 0 rfl)
  have h₃ := h₂.step (.tryComplete 0 rfl rfl)
  have h₄ := h₃.step (.op _ (.check 0 rfl))
  have h₅ := h₄.step (.op _ (.attach 0 rfl))
  have h₆ := h₅.step (.op _ (.look 0 rfl))
  have h₇ := h₆.step (.op _ (.arm 0 rfl))
  refine ⟨_, h₇, rfl, ⟨fun d => rfl, ?_, ?_, ?_⟩, rfl, rfl⟩
  · intro t ht
    cases t with
    | zero => exact ⟨rfl, rfl⟩
    | succ t => exact absurd ht nofun
  · intro t
    cases t <;> rfl
  · intro t
    cases t <;> rfl

/-- The run is one of those the theorem is about. -/
theorem parked_right : ∃ s, Runs Harmless s ∧ s.Parked 0 ∧ s.Right := by
  have hadd : Harmless .new 1 := fun hne => absurd rfl hne
  obtain ⟨s, hs, -, -, hparked⟩ := runs_parked hadd
  exact ⟨s, hs, hparked, right_of_runs hs⟩

/-- `add(1)`, a coroutine parks, `add(-1)`: the counter is zero, and nobody wakes it. -/
theorem stranded : ¬∀ s, Runs AnyAdd s → s.Right := by
  intro hright
  have hadd : AnyAdd .new 1 := trivial
  obtain ⟨s, hs, hcnt, hquiet, hparked⟩ := runs_parked hadd
  have hrun := hs.step (.add (-1) trivial)
  exact not_right_of_add hquiet hparked (by omega) (hright _ hrun)

end Uvent.Sync.WaitGroup
