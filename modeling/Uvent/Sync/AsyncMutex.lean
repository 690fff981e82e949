import Uvent.Sync.WaitList

/-!
# The mutex

One `AsyncMutex` and the calls of `lock` and `try_lock` on it, each with its own
`LockAwaiter` and the `Guard` it gives out; a coroutine makes as many calls as it likes,
and a guard may be moved to another one.  A compare-exchange of `state_`, a section
under the lock of the wait list, a read of the cancel flag and an entry into a run queue
are one step each.

Without `UVENT_ENABLE_REUSEADDR` another worker may resume a coroutine while its
`await_suspend` is not over; the awaiter of a call is not used for another one.
-/

namespace Uvent.Sync.Mutex

/-- Where a call is: `ready` to `remove` are the steps of `await_ready` and
`await_suspend`, `proceed` is an await that does not suspend, and `suspended` one whose
`await_suspend` has returned true. -/
inductive LockPc where
  | idle
  | tryLock
  | ready
  | check
  | enter
  | arm
  | remove
  | proceed
  | suspended
  | ended
  deriving DecidableEq, Repr

/-- `on_cancel` behind a successful `remove`. -/
inductive HookPc where
  | idle
  | store
  | enqueue
  deriving DecidableEq, Repr

/-- The guard of a call: not given out yet, empty, owning, in `unlock` before its
section, and given back. -/
inductive Guard where
  | pending
  | empty
  | owning
  | unlocking
  | released
  deriving DecidableEq, Repr

/-- `queued` counts the entries of the handle in the run queues, `resumed` how often the
coroutine went on from the await; `claimed` is `own` with `kCancelledIndex`. -/
structure Call where
  pc : LockPc
  requested : Bool
  hook : Bool
  hookPc : HookPc
  acquired : Bool
  cancelled : Bool
  claimed : Bool
  queued : Nat
  resumed : Nat
  guard : Guard
  deriving DecidableEq, Repr

def Call.new : Call where
  pc := .idle
  requested := false
  hook := false
  hookPc := .idle
  acquired := false
  cancelled := false
  claimed := false
  queued := 0
  resumed := 0
  guard := .pending

/-- `waking` are the waiters that an `unlock` has chosen and not passed to `resume_on`
yet.  The last three fields are not of the program: the calls in the order in which they
were pushed, those that were handed the lock in the order in which this was done, and
those that cancellation took out of the list. -/
structure AsyncMutex where
  state : Nat
  waiters : WaitList Nat
  calls : Nat → Call
  waking : List Nat
  pushed : List Nat
  handed : List Nat
  withdrawn : List Nat

def AsyncMutex.new : AsyncMutex := ⟨0, [], fun _ => .new, [], [], [], []⟩

def Call.awaitResume (k : Call) : Guard :=
  if k.acquired then .owning else if k.cancelled || k.claimed then .empty else .owning

def Call.goOn (k : Call) : Call := { k with resumed := k.resumed + 1, guard := k.awaitResume }

namespace AsyncMutex

def set (s : AsyncMutex) (c : Nat) (k : Call) : AsyncMutex :=
  { s with calls := Function.update s.calls c k }

def tryLockRaw (s : AsyncMutex) : Bool × AsyncMutex :=
  if s.state = 0 then (true, { s with state := 1 }) else (false, s)

def tryLock (s : AsyncMutex) (c : Nat) : AsyncMutex :=
  match s.tryLockRaw with
  | (true, s') => s'.set c { s.calls c with pc := .ended, guard := .owning }
  | (false, s') => s'.set c { s.calls c with pc := .ended, guard := .empty }

def awaitReady (s : AsyncMutex) (c : Nat) : AsyncMutex :=
  match s.tryLockRaw with
  | (true, s') => s'.set c { s.calls c with pc := .proceed, acquired := true }
  | (false, s') => s'.set c { s.calls c with pc := .check }

def checkCancel (s : AsyncMutex) (c : Nat) : AsyncMutex :=
  if (s.calls c).requested then s.set c { s.calls c with pc := .proceed, cancelled := true }
  else s.set c { s.calls c with pc := .enter }

/-- The section of `await_suspend` under the lock of the list. -/
def lockSection (s : AsyncMutex) (c : Nat) : AsyncMutex :=
  match s.tryLockRaw with
  | (true, s') => s'.set c { s.calls c with pc := .proceed, acquired := true }
  | (false, s') =>
      { s' with waiters := s'.waiters.pushLocked c, pushed := s'.pushed ++ [c] }.set c
        { s.calls c with pc := .arm }

def armCancel (s : AsyncMutex) (c : Nat) : AsyncMutex :=
  s.set c { s.calls c with
    hook := true, pc := if (s.calls c).requested then .remove else .suspended }

/-- `WaitList::remove` by the party that cancels. -/
def withdraw (s : AsyncMutex) (c : Nat) : Bool × AsyncMutex :=
  match s.waiters.removeLocked c with
  | (true, l) => (true, { s with waiters := l, withdrawn := s.withdrawn ++ [c] })
  | (false, l) => (false, { s with waiters := l })

/-- `remove` of `await_suspend`, when cancellation was seen behind the push. -/
def removeSelf (s : AsyncMutex) (c : Nat) : AsyncMutex :=
  match s.withdraw c with
  | (true, s') => s'.set c { s.calls c with hook := false, cancelled := true, pc := .proceed }
  | (false, s') => s'.set c { s.calls c with pc := .suspended }

/-- `run_cancel_hook` up to the `remove` of `on_cancel`. -/
def onCancel (s : AsyncMutex) (c : Nat) : AsyncMutex :=
  match s.withdraw c with
  | (true, s') => s'.set c { s.calls c with hook := false, hookPc := .store }
  | (false, s') => s'.set c { s.calls c with hook := false }

/-- `unlock` under the lock of the list; the guard gave up its pointer before. -/
def unlockSection (s : AsyncMutex) (c : Nat) : AsyncMutex :=
  match s.waiters.popFrontLocked with
  | (none, l) =>
      { s with waiters := l, state := 0 }.set c { s.calls c with guard := .released }
  | (some w, l) =>
      { s with waiters := l, waking := s.waking ++ [w], handed := s.handed ++ [w] }.set c
        { s.calls c with guard := .released }

/-- `resume_on` for a waiter that `unlock` has chosen. -/
def resumeOn (s : AsyncMutex) (w : Nat) : AsyncMutex :=
  { s with waking := s.waking.erase w }.set w
    { s.calls w with queued := (s.calls w).queued + 1 }

end AsyncMutex

/-- A step; `reuseAddr` is the build.  The guard of a call is given back by its
destructor, by `Guard::unlock` or when another guard is moved into it. -/
inductive Step (reuseAddr : Bool) (s : AsyncMutex) : AsyncMutex → Prop where
  | request (c : Nat) : Step reuseAddr s (s.set c { s.calls c with requested := true })
  | callLock (c : Nat) (h : (s.calls c).pc = .idle) :
      Step reuseAddr s (s.set c { s.calls c with pc := .ready })
  | callTryLock (c : Nat) (h : (s.calls c).pc = .idle) :
      Step reuseAddr s (s.set c { s.calls c with pc := .tryLock })
  | tryLock (c : Nat) (h : (s.calls c).pc = .tryLock) : Step reuseAddr s (s.tryLock c)
  | awaitReady (c : Nat) (h : (s.calls c).pc = .ready) : Step reuseAddr s (s.awaitReady c)
  | checkCancel (c : Nat) (h : (s.calls c).pc = .check) : Step reuseAddr s (s.checkCancel c)
  | lockSection (c : Nat) (h : (s.calls c).pc = .enter) : Step reuseAddr s (s.lockSection c)
  | armCancel (c : Nat) (h : (s.calls c).pc = .arm) : Step reuseAddr s (s.armCancel c)
  | removeSelf (c : Nat) (h : (s.calls c).pc = .remove) : Step reuseAddr s (s.removeSelf c)
  | proceed (c : Nat) (h : (s.calls c).pc = .proceed) :
      Step reuseAddr s (s.set c { (s.calls c).goOn with pc := .ended })
  | resume (c : Nat) (h : 0 < (s.calls c).queued)
      (hbuild : reuseAddr = true → (s.calls c).pc = .suspended) :
      Step reuseAddr s
        (s.set c { (s.calls c).goOn with queued := (s.calls c).queued - 1, hook := false })
  | onCancel (c : Nat) (h : (s.calls c).hook = true) : Step reuseAddr s (s.onCancel c)
  | storeOwn (c : Nat) (h : (s.calls c).hookPc = .store) :
      Step reuseAddr s (s.set c { s.calls c with claimed := true, hookPc := .enqueue })
  | enqueueSelf (c : Nat) (h : (s.calls c).hookPc = .enqueue) :
      Step reuseAddr s
        (s.set c { s.calls c with hookPc := .idle, queued := (s.calls c).queued + 1 })
  | unlock (c : Nat) (h : (s.calls c).guard = .owning) :
      Step reuseAddr s (s.set c { s.calls c with guard := .unlocking })
  | unlockSection (c : Nat) (h : (s.calls c).guard = .unlocking) :
      Step reuseAddr s (s.unlockSection c)
  | resumeOn (w : Nat) (h : w ∈ s.waking) : Step reuseAddr s (s.resumeOn w)

inductive Runs (reuseAddr : Bool) : AsyncMutex → Prop where
  | start : Runs reuseAddr .new
  | step {s s' : AsyncMutex} (hs : Runs reuseAddr s) (h : Step reuseAddr s s') : Runs reuseAddr s'

/-! ### Who owns the lock -/

def Call.owns (k : Call) (handed : Bool) : Bool :=
  match k.guard with
  | .owning | .unlocking => true
  | .pending => k.acquired || handed
  | .empty | .released => false

/-- The party of call `c` owns the lock: a live guard, one that is in `unlock`, or a
handoff in flight to it. -/
def AsyncMutex.Owns (s : AsyncMutex) (c : Nat) : Prop :=
  (s.calls c).owns (decide (c ∈ s.handed)) = true

def LockPc.early : LockPc → Bool
  | .idle | .tryLock | .ready | .check | .enter => true
  | _ => false

/-- The points of `await_suspend` behind the push. -/
def LockPc.late : LockPc → Bool
  | .arm | .remove | .suspended => true
  | _ => false

theorem LockPc.not_late_of_early {pc : LockPc} (h : pc.early = true) : ¬ pc.late = true := by
  cases pc <;> simp_all [early, late]

def Guard.granted : Guard → Bool
  | .owning | .unlocking | .released => true
  | .pending | .empty => false

/-- What a call looks like, with whether it is in the wait list, was handed the lock and
was withdrawn, and how many unlocks are about to resume it. -/
inductive Fits : Bool → Bool → Bool → Nat → Call → Prop where
  | calling {pc : LockPc} (r : Bool) (hpc : pc.early = true) :
      Fits false false false 0 ⟨pc, r, false, .idle, false, false, false, 0, 0, .pending⟩
  | waiting {pc : LockPc} (r h : Bool) (hpc : pc.late = true) :
      Fits true false false 0 ⟨pc, r, h, .idle, false, false, false, 0, 0, .pending⟩
  | acquired (r : Bool) :
      Fits false false false 0 ⟨.proceed, r, false, .idle, true, false, false, 0, 0, .pending⟩
  | refused (r b : Bool) :
      Fits false false b 0 ⟨.proceed, r, false, .idle, false, true, false, 0, 0, .pending⟩
  | chosen {pc : LockPc} (r h : Bool) (hpc : pc.late = true) :
      Fits false true false 1 ⟨pc, r, h, .idle, false, false, false, 0, 0, .pending⟩
  | woken {pc : LockPc} (r h : Bool) (hpc : pc.late = true) :
      Fits false true false 0 ⟨pc, r, h, .idle, false, false, false, 1, 0, .pending⟩
  | removed {pc : LockPc} (r h : Bool) (hpc : pc.late = true) :
      Fits false false true 0 ⟨pc, r, h, .store, false, false, false, 0, 0, .pending⟩
  | claimed {pc : LockPc} (r h : Bool) (hpc : pc.late = true) :
      Fits false false true 0 ⟨pc, r, h, .enqueue, false, false, true, 0, 0, .pending⟩
  | kicked {pc : LockPc} (r h : Bool) (hpc : pc.late = true) :
      Fits false false true 0 ⟨pc, r, h, .idle, false, false, true, 1, 0, .pending⟩
  | holding {pc : LockPc} {g : Guard} (r h b a : Bool) (hpc : pc.late = true ∨ pc = .ended)
      (hg : g.granted = true) :
      Fits false b false 0 ⟨pc, r, h, .idle, a, false, false, 0, 1, g⟩
  | tried {g : Guard} (r : Bool) (hg : g ≠ .pending) :
      Fits false false false 0 ⟨.ended, r, false, .idle, false, false, false, 0, 0, g⟩
  | empty {pc : LockPc} (r h b a d : Bool) (hpc : pc.late = true ∨ pc = .ended) :
      Fits false false b 0 ⟨pc, r, h, .idle, false, a, d, 0, 1, .empty⟩

def AsyncMutex.Fit (s : AsyncMutex) (c : Nat) : Prop :=
  Fits (decide (c ∈ s.waiters)) (decide (c ∈ s.handed)) (decide (c ∈ s.withdrawn))
    (s.waking.count c) (s.calls c)

structure Inv (s : AsyncMutex) : Prop where
  fit : ∀ c, s.Fit c
  nodup : s.waiters.Nodup
  fifo : s.pushed.filter (fun c => decide (c ∉ s.withdrawn)) = s.handed ++ s.waiters
  owner : (s.state = 0 ∧ s.waiters = [] ∧ ∀ c, ¬ s.Owns c) ∨
    (s.state = 1 ∧ ∃ c, ∀ d, s.Owns d ↔ d = c)

theorem inv_new : Inv .new where
  fit := fun _ => .calling false rfl
  nodup := List.nodup_nil
  fifo := rfl
  owner := .inl ⟨rfl, rfl, fun _ => Bool.noConfusion⟩

/-! ### The steps of one call -/

section Calls

variable {w a b : Bool} {n : Nat} {k : Call}

theorem Fits.request (h : Fits w a b n k) : Fits w a b n { k with requested := true } := by
  cases h <;> constructor <;> assumption

theorem Fits.of_early (h : Fits w a b n k) (hpc : k.pc.early = true) :
    w = false ∧ a = false ∧ b = false ∧ n = 0 ∧
      ∃ r, k = ⟨k.pc, r, false, .idle, false, false, false, 0, 0, .pending⟩ := by
  cases h with
  | calling r _ => exact ⟨rfl, rfl, rfl, rfl, r, rfl⟩
  | acquired | refused | tried => cases hpc
  | holding _ _ _ _ hlate | empty _ _ _ _ _ hlate =>
    obtain hlate | rfl := hlate
    · exact absurd hlate (LockPc.not_late_of_early hpc)
    · cases hpc
  | _ => exact absurd ‹_› (LockPc.not_late_of_early hpc)

/-- A call that is before the list is there in every other of these points. -/
theorem Fits.early {pc : LockPc} (h : Fits w a b n k) (hpc : k.pc.early = true)
    (hpc' : pc.early = true) : Fits w a b n { k with pc := pc } := by
  obtain ⟨rfl, rfl, rfl, rfl, r, hk⟩ := h.of_early hpc
  rw [hk]
  exact .calling r hpc'

theorem Fits.take (h : Fits w a b n k) (hpc : k.pc.early = true) :
    Fits w a b n { k with pc := .proceed, acquired := true } := by
  obtain ⟨rfl, rfl, rfl, rfl, r, hk⟩ := h.of_early hpc
  rw [hk]
  exact .acquired r

theorem Fits.refuse (h : Fits w a b n k) (hpc : k.pc.early = true) :
    Fits w a b n { k with pc := .proceed, cancelled := true } := by
  obtain ⟨rfl, rfl, rfl, rfl, r, hk⟩ := h.of_early hpc
  rw [hk]
  exact .refused r false

theorem Fits.answer {g : Guard} (h : Fits w a b n k) (hpc : k.pc.early = true) (hg : g ≠ .pending) :
    Fits w a b n { k with pc := .ended, guard := g } := by
  obtain ⟨rfl, rfl, rfl, rfl, r, hk⟩ := h.of_early hpc
  rw [hk]
  exact .tried r hg

/-- A call behind the push is in every other of these points of `await_suspend`, armed or
not. -/
theorem Fits.late {pc : LockPc} {hook : Bool} (h : Fits w a b n k) (hpc : k.pc.late = true)
    (hpc' : pc.late = true) : Fits w a b n { k with pc := pc, hook := hook } := by
  cases h with
  | calling _ hearly => exact absurd hpc (LockPc.not_late_of_early hearly)
  | acquired | refused | tried => cases hpc
  | waiting r => exact .waiting r hook hpc'
  | chosen r => exact .chosen r hook hpc'
  | woken r => exact .woken r hook hpc'
  | removed r => exact .removed r hook hpc'
  | claimed r => exact .claimed r hook hpc'
  | kicked r => exact .kicked r hook hpc'
  | holding r _ _ a _ hg => exact .holding r hook _ a (.inl hpc') hg
  | empty r _ _ a d => exact .empty r hook _ a d (.inl hpc')

theorem Fits.disarm (h : Fits w a b n k) : Fits w a b n { k with hook := false } := by
  cases h <;> constructor <;> assumption

theorem Fits.proceed (h : Fits w a b n k) (hpc : k.pc = .proceed) :
    Fits w a b n { k.goOn with pc := .ended } ∧ k.goOn.owns a = k.owns a := by
  cases h with
  | acquired r => exact ⟨.holding r false false true (.inr rfl) rfl, rfl⟩
  | refused r b => exact ⟨.empty r false b true false (.inr rfl), rfl⟩
  | calling _ hearly => subst hpc; cases hearly
  | tried => cases hpc
  | holding _ _ _ _ hlate | empty _ _ _ _ _ hlate =>
    subst hpc
    obtain hlate | hlate := hlate <;> cases hlate
  | _ => subst hpc; exact absurd ‹_› Bool.false_ne_true

theorem Fits.resume (h : Fits w a b n k) (hq : 0 < k.queued) :
    Fits w a b n { k.goOn with queued := k.queued - 1, hook := false } ∧
      k.goOn.owns a = k.owns a := by
  cases h with
  | woken r _ hpc => exact ⟨.holding r false true false (.inl hpc) rfl, rfl⟩
  | kicked r _ hpc => exact ⟨.empty r false true false true (.inl hpc), rfl⟩
  | _ => cases hq

theorem Fits.storeOwn (h : Fits w a b n k) (hpc : k.hookPc = .store) :
    Fits w a b n { k with claimed := true, hookPc := .enqueue } := by
  cases h with
  | removed r h hlate => exact .claimed r h hlate
  | _ => cases hpc

theorem Fits.enqueueSelf (h : Fits w a b n k) (hpc : k.hookPc = .enqueue) :
    Fits w a b n { k with hookPc := .idle, queued := k.queued + 1 } := by
  cases h with
  | claimed r h hlate => exact .kicked r h hlate
  | _ => cases hpc

theorem Fits.guard {g : Guard} (h : Fits w a b n k) (hk : k.guard = .owning ∨ k.guard = .unlocking)
    (hg : g = .unlocking ∨ g = .released) : Fits w a b n { k with guard := g } := by
  have hg' : g.granted = true ∧ g ≠ .pending := by
    obtain rfl | rfl := hg <;> exact ⟨rfl, nofun⟩
  cases h with
  | holding r h a b hpc _ => exact .holding r h a b hpc hg'.1
  | tried r _ => exact .tried r hg'.2
  | _ => obtain hk | hk := hk <;> cases hk

end Calls

/-! ### The steps of the mutex -/

section Keeps

variable {s s' : AsyncMutex} {c d : Nat} {k : Call}

namespace AsyncMutex

@[simp] theorem set_state : (s.set c k).state = s.state := rfl

@[simp] theorem set_waiters : (s.set c k).waiters = s.waiters := rfl

@[simp] theorem set_waking : (s.set c k).waking = s.waking := rfl

@[simp] theorem set_pushed : (s.set c k).pushed = s.pushed := rfl

@[simp] theorem set_handed : (s.set c k).handed = s.handed := rfl

@[simp] theorem set_withdrawn : (s.set c k).withdrawn = s.withdrawn := rfl

@[simp] theorem set_calls_self : (s.set c k).calls c = k := Function.update_self ..

theorem set_calls_of_ne (h : d ≠ c) : (s.set c k).calls d = s.calls d :=
  Function.update_of_ne h ..

theorem Fit.intro {waits handed withdrawn : Bool} {waking : Nat}
    (h : Fits waits handed withdrawn waking k) (hcall : s.calls c = k)
    (hwaits : c ∈ s.waiters ↔ waits = true) (hhanded : c ∈ s.handed ↔ handed = true)
    (hwithdrawn : c ∈ s.withdrawn ↔ withdrawn = true) (hwaking : s.waking.count c = waking) :
    s.Fit c := by
  have hw : decide (c ∈ s.waiters) = waits := Bool.eq_iff_iff.mpr (by simpa using hwaits)
  have hh : decide (c ∈ s.handed) = handed := Bool.eq_iff_iff.mpr (by simpa using hhanded)
  have hr : decide (c ∈ s.withdrawn) = withdrawn :=
    Bool.eq_iff_iff.mpr (by simpa using hwithdrawn)
  unfold Fit
  rw [hcall, hwaking, hw, hh, hr]
  exact h

theorem Fit.congr (h : s.Fit d) (hcall : s'.calls d = s.calls d)
    (hwaits : d ∈ s'.waiters ↔ d ∈ s.waiters) (hhanded : d ∈ s'.handed ↔ d ∈ s.handed)
    (hwithdrawn : d ∈ s'.withdrawn ↔ d ∈ s.withdrawn)
    (hwaking : s'.waking.count d = s.waking.count d) : s'.Fit d := by
  unfold Fit
  rw [hcall, hwaking, decide_eq_decide.mpr hwaits, decide_eq_decide.mpr hhanded,
    decide_eq_decide.mpr hwithdrawn]
  exact h

theorem owns_congr (hcall : s'.calls d = s.calls d) (hhanded : d ∈ s'.handed ↔ d ∈ s.handed) :
    s'.Owns d ↔ s.Owns d := by
  rw [Owns, Owns, hcall, decide_eq_decide.mpr hhanded]

/-- A call that is in the list has not been given the lock, and is not about to be
resumed. -/
theorem Fit.of_mem (h : s.Fit c) (hmem : c ∈ s.waiters) :
    c ∉ s.handed ∧ c ∉ s.withdrawn ∧ s.waking.count c = 0 ∧ ∃ pc r h, pc.late = true ∧
      s.calls c = ⟨pc, r, h, .idle, false, false, false, 0, 0, .pending⟩ := by
  simp only [Fit, hmem, decide_true] at h
  generalize hh : decide (c ∈ s.handed) = handed at h
  generalize hr : decide (c ∈ s.withdrawn) = withdrawn at h
  generalize s.waking.count c = waking at h
  generalize s.calls c = call at h
  cases h with
  | waiting r h hpc => exact ⟨by simpa using hh, by simpa using hr, rfl, _, r, h, hpc, rfl⟩

theorem Fit.of_early (h : s.Fit c) (hpc : (s.calls c).pc.early = true) :
    c ∉ s.waiters ∧ c ∉ s.handed ∧ c ∉ s.withdrawn ∧ s.waking.count c = 0 ∧
      ∃ pc r, s.calls c = ⟨pc, r, false, .idle, false, false, false, 0, 0, .pending⟩ := by
  obtain ⟨hw, hh, hr, hn, r, hk⟩ := Fits.of_early h hpc
  exact ⟨of_decide_eq_false hw, of_decide_eq_false hh, of_decide_eq_false hr, hn, _, r, hk⟩

end AsyncMutex

open AsyncMutex

/-- A step that changes one call and neither makes it the owner nor takes the lock from
it. -/
theorem Inv.set (hinv : Inv s)
    (hfit : Fits (decide (c ∈ s.waiters)) (decide (c ∈ s.handed)) (decide (c ∈ s.withdrawn))
      (s.waking.count c) k)
    (howns : k.owns (decide (c ∈ s.handed)) = (s.calls c).owns (decide (c ∈ s.handed))) :
    Inv (s.set c k) := by
  have hsame : ∀ d, (s.set c k).Owns d ↔ s.Owns d := by
    intro d
    by_cases hd : d = c
    · subst hd
      rw [Owns, Owns, set_calls_self, ← howns]
      rfl
    · exact owns_congr (set_calls_of_ne hd) Iff.rfl
  refine ⟨fun d => ?_, hinv.nodup, hinv.fifo, ?_⟩
  · by_cases hd : d = c
    · subst hd
      exact .intro hfit set_calls_self (by simp) (by simp) (by simp) rfl
    · exact (hinv.fit d).congr (set_calls_of_ne hd) Iff.rfl Iff.rfl Iff.rfl rfl
  · simp only [hsame]
    exact hinv.owner

theorem Inv.acquire (hinv : Inv s) (hfree : s.state = 0)
    (hfit : Fits (decide (c ∈ s.waiters)) (decide (c ∈ s.handed)) (decide (c ∈ s.withdrawn))
      (s.waking.count c) k)
    (howns : k.owns (decide (c ∈ s.handed)) = true) :
    Inv ({ s with state := 1 }.set c k) := by
  obtain ⟨-, -, hnone⟩ | ⟨hone, -⟩ := hinv.owner
  · refine ⟨fun d => ?_, hinv.nodup, hinv.fifo, .inr ⟨rfl, c, fun d => ?_⟩⟩
    · by_cases hd : d = c
      · subst hd
        exact .intro hfit set_calls_self (by simp) (by simp) (by simp) rfl
      · exact (hinv.fit d).congr (set_calls_of_ne hd) Iff.rfl Iff.rfl Iff.rfl rfl
    · by_cases hd : d = c
      · subst hd
        rw [Owns, set_calls_self]
        exact iff_of_true howns rfl
      · refine iff_of_false (fun h => hnone d ?_) hd
        exact (owns_congr (set_calls_of_ne hd) Iff.rfl).mp h
  · omega

/-- What is left of the waiters when cancellation takes `c` out of the list. -/
theorem Inv.fifo_withdraw (hinv : Inv s) (hnot : c ∉ s.handed) :
    s.pushed.filter (fun d => decide (d ∉ s.withdrawn ++ [c])) =
      s.handed ++ s.waiters.erase c := by
  calc
    _ = (s.pushed.filter (fun d => decide (d ∉ s.withdrawn))).filter (· != c) := by
      rw [List.filter_filter]
      apply List.filter_congr
      intro d _
      by_cases hd : d = c <;> simp [hd]
    _ = s.handed.filter (· != c) ++ s.waiters.filter (· != c) := by
      rw [hinv.fifo, List.filter_append]
    _ = s.handed ++ s.waiters.erase c := by
      rw [hinv.nodup.erase_eq_filter c, List.filter_eq_self.mpr]
      intro d hd
      simpa using fun h : d = c => hnot (h ▸ hd)

theorem Inv.withdraw (hinv : Inv s) (hmem : c ∈ s.waiters)
    (hfit : Fits false false true 0 k) (hk : k.owns false = false) :
    Inv ({ s with waiters := s.waiters.erase c, withdrawn := s.withdrawn ++ [c] }.set c k) := by
  obtain ⟨hnot, -, hwaking, pc, r, h, -, hcall⟩ := (hinv.fit c).of_mem hmem
  have hsame : ∀ d, ({ s with
      waiters := s.waiters.erase c, withdrawn := s.withdrawn ++ [c] }.set c k).Owns d ↔
      s.Owns d := by
    intro d
    by_cases hd : d = c
    · subst hd
      rw [Owns, Owns, set_calls_self, hcall]
      simp only [set_handed, hnot, decide_false, hk]
      rfl
    · exact owns_congr (set_calls_of_ne hd) Iff.rfl
  refine ⟨fun d => ?_, hinv.nodup.erase c, hinv.fifo_withdraw hnot, ?_⟩
  · by_cases hd : d = c
    · subst hd
      exact .intro hfit set_calls_self (by simp [hinv.nodup.not_mem_erase]) (by simp [hnot])
        (by simp) hwaking
    · exact (hinv.fit d).congr (set_calls_of_ne hd) (List.mem_erase_of_ne hd) Iff.rfl
        (by simp [hd]) rfl
  · simp only [hsame]
    obtain ⟨-, hnil, -⟩ | hone := hinv.owner
    · simp [hnil] at hmem
    · exact .inr hone

theorem Inv.push (hinv : Inv s) (hstate : s.state ≠ 0) (hpc : (s.calls c).pc.early = true)
    (hk : k = { s.calls c with pc := .arm }) :
    Inv ({ s with waiters := s.waiters ++ [c], pushed := s.pushed ++ [c] }.set c k) := by
  obtain ⟨hwaits, hhanded, hwithdrawn, hwaking, pc, r, hcall⟩ := (hinv.fit c).of_early hpc
  replace hk : k = ⟨.arm, r, false, .idle, false, false, false, 0, 0, .pending⟩ := by
    rw [hk, hcall]
  have hsame : ∀ d, ({ s with waiters := s.waiters ++ [c], pushed := s.pushed ++ [c] }.set c
      k).Owns d ↔ s.Owns d := by
    intro d
    by_cases hd : d = c
    · subst hd
      simp [Owns, hk, hcall, Call.owns, hhanded]
    · exact owns_congr (set_calls_of_ne hd) Iff.rfl
  refine ⟨fun d => ?_, ?_, ?_, ?_⟩
  · by_cases hd : d = c
    · subst hd
      exact .intro (Fits.waiting r false rfl) (set_calls_self.trans hk) (by simp)
        (by simp [hhanded]) (by simp [hwithdrawn]) hwaking
    · exact (hinv.fit d).congr (set_calls_of_ne hd) (by simp [hd]) Iff.rfl Iff.rfl rfl
  · exact List.concat_eq_append ▸ hinv.nodup.concat hwaits
  · show (s.pushed ++ [c]).filter (fun d => decide (d ∉ s.withdrawn)) = s.handed ++ (s.waiters ++ [c])
    rw [List.filter_append, hinv.fifo, List.append_assoc]
    simp [hwithdrawn]
  · simp only [hsame]
    obtain ⟨hzero, -⟩ | hone := hinv.owner
    · exact absurd hzero hstate
    · exact .inr hone

/-- Nobody but the caller of `unlock` owns the lock. -/
theorem Inv.eq_of_owns (hinv : Inv s) (hc : s.Owns c) (hd : s.Owns d) : d = c := by
  obtain ⟨-, -, hnone⟩ | ⟨-, e, he⟩ := hinv.owner
  · exact absurd hc (hnone c)
  · exact ((he d).mp hd).trans ((he c).mp hc).symm

theorem Inv.release (hinv : Inv s) (hown : s.Owns c) (hnil : s.waiters = [])
    (hfit : Fits (decide (c ∈ s.waiters)) (decide (c ∈ s.handed)) (decide (c ∈ s.withdrawn))
      (s.waking.count c) k) (hk : k.guard = .released) :
    Inv ({ s with waiters := [], state := 0 }.set c k) := by
  refine ⟨fun d => ?_, List.nodup_nil, hinv.fifo.trans (by rw [hnil]; rfl),
    .inl ⟨rfl, rfl, fun d hd => ?_⟩⟩
  · by_cases hd : d = c
    · subst hd
      exact .intro hfit set_calls_self (by simp [hnil]) (by simp) (by simp) rfl
    · exact (hinv.fit d).congr (set_calls_of_ne hd) (by simp [hnil]) Iff.rfl Iff.rfl rfl
  · by_cases hdc : d = c
    · subst hdc
      simp [Owns, hk, Call.owns] at hd
    · have hd' : s.Owns d := (owns_congr (set_calls_of_ne hdc) Iff.rfl).mp hd
      exact hdc (hinv.eq_of_owns hown hd')

/-- `unlock` hands the lock to the first waiter. -/
theorem Inv.handOff (hinv : Inv s) {w : Nat} {l : WaitList Nat} (hown : s.Owns c)
    (hlist : s.waiters = w :: l)
    (hfit : Fits (decide (c ∈ s.waiters)) (decide (c ∈ s.handed)) (decide (c ∈ s.withdrawn))
      (s.waking.count c) k) (hk : k.guard = .released) :
    Inv ({ s with waiters := l, waking := s.waking ++ [w], handed := s.handed ++ [w] }.set c k) := by
  have hmem : w ∈ s.waiters := by simp [hlist]
  obtain ⟨hnot, hr, hwaking, pc, r, h, hlate, hcall⟩ := (hinv.fit w).of_mem hmem
  have hnodup : w ∉ l ∧ l.Nodup := by simpa [hlist] using hinv.nodup
  have hne : c ≠ w := by
    rintro rfl
    simp [Owns, hcall, Call.owns, hnot] at hown
  refine ⟨fun d => ?_, hnodup.2, ?_, .inr ⟨?_, w, fun d => ?_⟩⟩
  · by_cases hdw : d = w
    · subst hdw
      exact .intro (Fits.chosen r h hlate) ((set_calls_of_ne hne.symm).trans hcall)
        (by simp [hnodup.1]) (by simp) (by simp [hr]) (by simp [hwaking])
    · have hmem' : d ∈ l ↔ d ∈ s.waiters := by simp [hlist, hdw]
      have hhanded : d ∈ s.handed ++ [w] ↔ d ∈ s.handed := by simp [hdw]
      have hcount : (s.waking ++ [w]).count d = s.waking.count d := by
        simp [List.count_append, Ne.symm hdw]
      by_cases hd : d = c
      · subst hd
        exact .intro hfit set_calls_self (by simp [hmem']) (by simp [hdw]) (by simp) hcount
      · exact (hinv.fit d).congr (set_calls_of_ne hd) hmem' hhanded Iff.rfl hcount
  · show s.pushed.filter (fun d => decide (d ∉ s.withdrawn)) = s.handed ++ [w] ++ l
    rw [hinv.fifo, hlist]
    simp
  · obtain ⟨-, -, hnone⟩ | ⟨hone, -⟩ := hinv.owner
    · exact absurd hown (hnone c)
    · exact hone
  · by_cases hdw : d = w
    · subst hdw
      rw [Owns, set_calls_of_ne hne.symm, hcall]
      simp [Call.owns]
    · refine iff_of_false (fun hd => ?_) hdw
      by_cases hdc : d = c
      · subst hdc
        simp [Owns, hk, Call.owns] at hd
      · refine hdc (hinv.eq_of_owns hown ((owns_congr ?_ ?_).mp hd))
        · exact set_calls_of_ne hdc
        · simp [hdw]

theorem Inv.resumeOn (hinv : Inv s) (hmem : c ∈ s.waking) : Inv (s.resumeOn c) := by
  have hfit : (s.resumeOn c).Fit c ∧ c ∈ s.handed ∧ (s.calls c).guard = .pending := by
    have h := hinv.fit c
    have hpos : 0 < s.waking.count c := List.count_pos_iff.mpr hmem
    unfold Fit at h
    generalize hw : decide (c ∈ s.waiters) = waits at h
    generalize hh : decide (c ∈ s.handed) = handed at h
    generalize hr : decide (c ∈ s.withdrawn) = withdrawn at h
    generalize hn : s.waking.count c = waking at h hpos
    generalize hcall : s.calls c = call at h
    cases h with
    | chosen r h hpc =>
      refine ⟨.intro (.woken r h hpc) ?_ ?_ ?_ ?_ ?_, by simpa using hh, rfl⟩
      · simp [AsyncMutex.resumeOn, hcall]
      · simpa [AsyncMutex.resumeOn] using hw
      · simpa [AsyncMutex.resumeOn] using hh
      · simpa [AsyncMutex.resumeOn] using hr
      · simp [AsyncMutex.resumeOn, hn]
    | _ => cases hpos
  obtain ⟨hfit, hhanded, hguard⟩ := hfit
  have hsame : ∀ d, (s.resumeOn c).Owns d ↔ s.Owns d := by
    intro d
    by_cases hd : d = c
    · subst hd
      simp [AsyncMutex.resumeOn, Owns, Call.owns, hguard, hhanded]
    · exact owns_congr (set_calls_of_ne hd) Iff.rfl
  refine ⟨fun d => ?_, hinv.nodup, hinv.fifo, ?_⟩
  · by_cases hd : d = c
    · exact hd ▸ hfit
    · exact (hinv.fit d).congr (set_calls_of_ne hd) Iff.rfl Iff.rfl Iff.rfl
        (List.count_erase_of_ne hd)
  · simp only [hsame]
    exact hinv.owner

end Keeps

/-- Cancellation takes a waiter out of the list, or finds it gone. -/
theorem Inv.withdrawCall {s : AsyncMutex} {c : Nat} {k k' : Call} (hinv : Inv s)
    (hin : c ∈ s.waiters → Fits false false true 0 k ∧ k.owns false = false)
    (hout : Fits (decide (c ∈ s.waiters)) (decide (c ∈ s.handed)) (decide (c ∈ s.withdrawn))
      (s.waking.count c) k')
    (howns : k'.owns (decide (c ∈ s.handed)) = (s.calls c).owns (decide (c ∈ s.handed))) :
    Inv (match s.withdraw c with
      | (true, s') => s'.set c k
      | (false, s') => s'.set c k') := by
  by_cases hmem : c ∈ s.waiters
  · obtain ⟨hfit, hk⟩ := hin hmem
    simpa [AsyncMutex.withdraw, WaitList.removeLocked, hmem] using hinv.withdraw hmem hfit hk
  · simpa [AsyncMutex.withdraw, WaitList.removeLocked, hmem, List.erase_of_not_mem hmem] using
      hinv.set hout howns

theorem Inv.step {reuseAddr : Bool} {s s' : AsyncMutex} (h : Step reuseAddr s s') (hinv : Inv s) :
    Inv s' := by
  cases h with
  | request c => exact hinv.set (hinv.fit c).request rfl
  | callLock c h | callTryLock c h =>
    exact hinv.set (Fits.early (hinv.fit c) (by rw [h]; rfl) rfl) rfl
  | tryLock c h =>
    have hpc : (s.calls c).pc.early = true := by rw [h]; rfl
    by_cases hfree : s.state = 0
    · simpa [AsyncMutex.tryLock, AsyncMutex.tryLockRaw, hfree] using
        hinv.acquire hfree (Fits.answer (hinv.fit c) hpc (g := .owning) nofun) rfl
    · obtain ⟨-, hhanded, -, -, pc, r, hcall⟩ := (hinv.fit c).of_early hpc
      simpa [AsyncMutex.tryLock, AsyncMutex.tryLockRaw, hfree] using
        hinv.set (Fits.answer (hinv.fit c) hpc (g := .empty) nofun) (by simp [hcall, hhanded, Call.owns])
  | awaitReady c h =>
    have hpc : (s.calls c).pc.early = true := by rw [h]; rfl
    by_cases hfree : s.state = 0
    · obtain ⟨-, -, -, -, pc, r, hcall⟩ := (hinv.fit c).of_early hpc
      simpa [AsyncMutex.awaitReady, AsyncMutex.tryLockRaw, hfree] using
        hinv.acquire hfree (Fits.take (hinv.fit c) hpc) (by simp [hcall, Call.owns])
    · have hfit := Fits.early (hinv.fit c) hpc (show LockPc.check.early = true from rfl)
      simpa [AsyncMutex.awaitReady, AsyncMutex.tryLockRaw, hfree] using hinv.set hfit rfl
  | checkCancel c h =>
    have hpc : (s.calls c).pc.early = true := by rw [h]; rfl
    unfold AsyncMutex.checkCancel
    split
    · exact hinv.set (Fits.refuse (hinv.fit c) hpc) rfl
    · exact hinv.set (Fits.early (hinv.fit c) hpc rfl) rfl
  | lockSection c h =>
    have hpc : (s.calls c).pc.early = true := by rw [h]; rfl
    by_cases hfree : s.state = 0
    · obtain ⟨-, -, -, -, pc, r, hcall⟩ := (hinv.fit c).of_early hpc
      simpa [AsyncMutex.lockSection, AsyncMutex.tryLockRaw, hfree] using
        hinv.acquire hfree (Fits.take (hinv.fit c) hpc) (by simp [hcall, Call.owns])
    · simpa [AsyncMutex.lockSection, AsyncMutex.tryLockRaw, hfree, WaitList.pushLocked] using
        hinv.push hfree hpc rfl
  | armCancel c h =>
    have hpc : (s.calls c).pc.late = true := by rw [h]; rfl
    refine hinv.set (Fits.late (hinv.fit c) hpc ?_) rfl
    split <;> rfl
  | removeSelf c h =>
    have hpc : (s.calls c).pc.late = true := by rw [h]; rfl
    refine hinv.withdrawCall (fun hmem => ?_) (Fits.late (hinv.fit c) hpc rfl) rfl
    obtain ⟨-, -, -, pc, r, h, -, hcall⟩ := (hinv.fit c).of_mem hmem
    rw [hcall]
    exact ⟨.refused r true, rfl⟩
  | proceed c h =>
    obtain ⟨hfit, howns⟩ := Fits.proceed (hinv.fit c) h
    exact hinv.set hfit howns
  | resume c h hbuild =>
    obtain ⟨hfit, howns⟩ := Fits.resume (hinv.fit c) h
    exact hinv.set hfit howns
  | onCancel c h =>
    refine hinv.withdrawCall (fun hmem => ?_) (Fits.disarm (hinv.fit c)) rfl
    obtain ⟨-, -, -, pc, r, h, hlate, hcall⟩ := (hinv.fit c).of_mem hmem
    rw [hcall]
    exact ⟨.removed r false hlate, rfl⟩
  | storeOwn c h => exact hinv.set (Fits.storeOwn (hinv.fit c) h) rfl
  | enqueueSelf c h => exact hinv.set (Fits.enqueueSelf (hinv.fit c) h) rfl
  | unlock c h =>
    exact hinv.set (Fits.guard (hinv.fit c) (.inl h) (.inl rfl)) (by simp [Call.owns, h])
  | unlockSection c h =>
    have hown : s.Owns c := by simp [AsyncMutex.Owns, Call.owns, h]
    have hfit := Fits.guard (hinv.fit c) (.inr h) (g := .released) (.inr rfl)
    cases hlist : s.waiters with
    | nil =>
      simpa [AsyncMutex.unlockSection, WaitList.popFrontLocked, hlist] using
        hinv.release hown hlist hfit rfl
    | cons w l =>
      simpa [AsyncMutex.unlockSection, WaitList.popFrontLocked, hlist] using
        hinv.handOff hown hlist hfit rfl
  | resumeOn w h => exact hinv.resumeOn h

theorem Inv.of_runs {reuseAddr : Bool} {s : AsyncMutex} (h : Runs reuseAddr s) : Inv s := by
  induction h with
  | start => exact inv_new
  | step _ h ih => exact ih.step h

/-! ### What holds in every state -/

/-- The resumptions of a call that are under way: an `unlock` that has chosen it, entries
in the run queues, `on_cancel` behind its `remove`, and an await that does not suspend. -/
def AsyncMutex.coming (s : AsyncMutex) (c : Nat) : Nat :=
  s.waking.count c + (s.calls c).queued + (if (s.calls c).hookPc = .idle then 0 else 1) +
    (if (s.calls c).pc = .proceed then 1 else 0)

def AsyncMutex.Once (s : AsyncMutex) (c : Nat) : Prop := s.coming c + (s.calls c).resumed = 1

structure Safe (s : AsyncMutex) : Prop where
  exclusive : ∀ c d, s.Owns c → s.Owns d → c = d
  unlocked : s.state = 0 → s.waiters = [] ∧ ∀ c, ¬ s.Owns c
  locked : s.state ≠ 0 → ∃ c, s.Owns c
  /-- The calls were handed the lock in the order of their pushes, less the cancelled. -/
  fifo : s.pushed.filter (fun c => decide (c ∉ s.withdrawn)) = s.handed ++ s.waiters
  handed : ∀ c ∈ s.handed, s.Once c ∧ ((s.calls c).resumed = 1 → (s.calls c).guard.granted = true)
  cancelled : ∀ c, (s.calls c).cancelled = true ∨ c ∈ s.withdrawn →
    c ∉ s.handed ∧ ¬ s.Owns c ∧ s.Once c ∧
      ((s.calls c).resumed = 1 → (s.calls c).guard = .empty)
  /-- With a waiter in the list, `unlock` makes it or an earlier one the owner. -/
  unlock : ∀ c d l l', (s.calls c).guard = .unlocking → s.waiters = l ++ d :: l' →
    ∃ e ∈ l ++ [d], (s.unlockSection c).Owns e ∧ e ∈ (s.unlockSection c).handed

section Outcomes

variable {w a b : Bool} {n : Nat} {k : Call}

theorem LockPc.ne_proceed {pc : LockPc} (h : pc.late = true ∨ pc = .ended) : pc ≠ .proceed := by
  rintro rfl
  obtain h | h := h <;> cases h

theorem Fits.handed (h : Fits w true b n k) :
    n + k.queued + (if k.hookPc = .idle then 0 else 1) + (if k.pc = .proceed then 1 else 0) +
      k.resumed = 1 ∧ (k.resumed = 1 → k.guard.granted = true) := by
  cases h with
  | chosen r h hpc | woken r h hpc => simp [LockPc.ne_proceed (.inl hpc)]
  | holding r h b a hpc hg => simp [LockPc.ne_proceed hpc, hg]

theorem Fits.cancelled (h : Fits w a b n k) (hc : k.cancelled = true ∨ b = true) :
    a = false ∧ k.owns a = false ∧
      n + k.queued + (if k.hookPc = .idle then 0 else 1) + (if k.pc = .proceed then 1 else 0) +
        k.resumed = 1 ∧ (k.resumed = 1 → k.guard = .empty) := by
  cases h with
  | refused r b => simp [Call.owns]
  | removed r h hpc | claimed r h hpc | kicked r h hpc =>
    simp [Call.owns, LockPc.ne_proceed (.inl hpc)]
  | empty r h b a d hpc => simp [Call.owns, LockPc.ne_proceed hpc]
  | _ => obtain hc | hc := hc <;> cases hc

end Outcomes

/-- In every state of every run the lock has one owner at most, passes from hand to hand in
the order of the list, and is not lost; what cancellation took out of the list is resumed
once and without the lock. -/
theorem safe_of_runs {reuseAddr : Bool} {s : AsyncMutex} (h : Runs reuseAddr s) : Safe s := by
  have hinv := Inv.of_runs h
  constructor
  case exclusive => exact fun c d hc hd => hinv.eq_of_owns hd hc
  case unlocked =>
    intro hzero
    obtain ⟨-, hnil, hnone⟩ | ⟨hone, -⟩ := hinv.owner
    · exact ⟨hnil, hnone⟩
    · omega
  case locked =>
    intro hstate
    obtain ⟨hzero, -⟩ | ⟨-, c, hc⟩ := hinv.owner
    · exact absurd hzero hstate
    · exact ⟨c, (hc c).mpr rfl⟩
  case fifo => exact hinv.fifo
  case handed =>
    intro c hc
    have hfit := hinv.fit c
    simp only [AsyncMutex.Fit, hc, decide_true] at hfit
    exact hfit.handed
  case cancelled =>
    intro c hc
    obtain ⟨hhanded, howns, honce, hguard⟩ :=
      Fits.cancelled (hinv.fit c) (hc.imp_right decide_eq_true)
    exact ⟨of_decide_eq_false hhanded, by simp [AsyncMutex.Owns, howns], honce, hguard⟩
  case unlock =>
    intro c d l l' hguard hlist
    obtain ⟨e, l₁, hfirst, hmem⟩ : ∃ e l₁, s.waiters = e :: l₁ ∧ e ∈ l ++ [d] := by
      cases l with
      | nil => exact ⟨d, l', hlist, by simp⟩
      | cons e l => exact ⟨e, l ++ d :: l', hlist, by simp⟩
    have hwaits : e ∈ s.waiters := by simp [hfirst]
    obtain ⟨hnot, -, -, pc, r, h, -, hcall⟩ := (hinv.fit e).of_mem hwaits
    have hne : e ≠ c := by
      rintro rfl
      rw [hcall] at hguard
      cases hguard
    refine ⟨e, hmem, ?_, ?_⟩
    · simp [AsyncMutex.unlockSection, WaitList.popFrontLocked, hfirst, AsyncMutex.Owns,
        AsyncMutex.set_calls_of_ne hne, hcall, Call.owns]
    · simp [AsyncMutex.unlockSection, WaitList.popFrontLocked, hfirst]

theorem queued_safe : ∃ s : AsyncMutex, Runs true s ∧ s.waiters = [1] ∧ s.Owns 0 ∧ Safe s := by
  have h₀ : Runs true .new := .start
  have h₁ := h₀.step (.callLock 0 rfl)
  have h₂ := h₁.step (.awaitReady 0 rfl)
  have h₃ := h₂.step (.proceed 0 rfl)
  have h₄ := h₃.step (.callLock 1 rfl)
  have h₅ := h₄.step (.awaitReady 1 rfl)
  have h₆ := h₅.step (.checkCancel 1 rfl)
  have h₇ := h₆.step (.lockSection 1 rfl)
  exact ⟨_, h₇, rfl, rfl, safe_of_runs h₇⟩

end Uvent.Sync.Mutex
