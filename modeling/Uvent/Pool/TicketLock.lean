import Mathlib.Algebra.Order.Group.Nat
import Mathlib.Data.Finset.Card
import Mathlib.Data.Finset.Interval
import Mathlib.Order.Interval.Finset.Nat
import Mathlib.Logic.Function.Basic
import Mathlib.Logic.Relation
import Uvent.Lib.Lap

/-!
# The ticket lock of the shared poller

Workers take the `EPoller` in the order of 32-bit tickets.  `lock_poll` draws a ticket and
sleeps until it is served; `try_lock` draws one only if it is served right away, which it
decides by a compare-exchange against a serving number it has read earlier.

A step is one access to the two counters, or the notification of the sleeping workers.
Beside the counters the state keeps whom every ticket went to, counted without wrapping.
-/

namespace Uvent.Pool.TicketLock

open Uvent.Lib

abbrev Ticket := BitVec 32

inductive Pc where
  | out
  /-- The compare-exchange of `try_lock`, with the serving number it has read. -/
  | cas (serving : Ticket)
  /-- Has the lock and sets `is_locked`. -/
  | mark
  /-- Inside `poll`. -/
  | inside
  /-- Has cleared `is_locked` and moves the serving number. -/
  | leave
  /-- `notify_all`. -/
  | notify
  /-- The load of `lock_poll`'s loop. -/
  | load (mine : Ticket)
  /-- In `ticket_serving.wait(serving)`, at the comparison. -/
  | wait (mine serving : Ticket)
  /-- Asleep in `ticket_serving.wait`. -/
  | asleep (mine serving : Ticket)
  deriving DecidableEq, Repr

namespace Pc

def holds : Pc → Bool
  | mark | inside | leave => true
  | _ => false

def mine : Pc → Option Ticket
  | load m | wait m _ | asleep m _ => some m
  | _ => none

def engaged (pc : Pc) : Bool := pc.holds || pc.mine.isSome

/-- What `notify_all` does to a worker: one that sleeps compares again. -/
def wake : Pc → Pc
  | asleep m r => wait m r
  | pc => pc

@[simp] theorem holds_wake (pc : Pc) : pc.wake.holds = pc.holds := by
  cases pc <;> rfl

@[simp] theorem mine_wake (pc : Pc) : pc.wake.mine = pc.mine := by
  cases pc <;> rfl

theorem engaged_of_holds {pc : Pc} (h : pc.holds = true) : pc.engaged = true := by
  simp [engaged, h]

theorem engaged_of_mine {pc : Pc} {m : Ticket} (h : pc.mine = some m) : pc.engaged = true := by
  simp [engaged, h]

theorem mine_of_engaged {pc : Pc} (h : pc.engaged = true) (hfree : pc.holds = false) :
    ∃ m, pc.mine = some m := by
  rw [engaged, hfree, Bool.false_or] at h
  exact Option.isSome_iff_exists.mp h

end Pc

/-- `next` is `ticket_next` and `serving` is `ticket_serving`.  The other fields are history:
`line` has the workers in the order in which they drew tickets, `entered` in the order in
which they got the lock, and `served` is the number of tickets that were served.  Of a
worker, `ticket` is the place in line of its last ticket, and `readAt` and `drawnAt` are the
tickets served and drawn when its last `try_lock` read the serving number. -/
structure State where
  next : Ticket
  serving : Ticket
  isLocked : Bool
  pc : Nat → Pc
  line : List Nat
  entered : List Nat
  served : Nat
  ticket : Nat → Nat
  readAt : Nat → Nat
  drawnAt : Nat → Nat

namespace State

def start : State :=
  ⟨0, 0, false, fun _ => .out, [], [], 0, fun _ => 0, fun _ => 0, fun _ => 0⟩

def move (s : State) (w : Nat) (pc : Pc) : State := { s with pc := Function.update s.pc w pc }

def draw (s : State) (w : Nat) (pc : Pc) : State :=
  { s with
    next := s.next + 1
    pc := Function.update s.pc w pc
    line := s.line ++ [w]
    ticket := Function.update s.ticket w s.line.length }

def enter (s : State) (w : Nat) : State := { s with entered := s.entered ++ [w] }

/-- The first access of `try_lock`. -/
def read (s : State) (w : Nat) : State :=
  { s with
    pc := Function.update s.pc w (.cas s.serving)
    readAt := Function.update s.readAt w s.served
    drawnAt := Function.update s.drawnAt w s.line.length }

def lock (s : State) (w : Nat) : State :=
  { s with isLocked := true, pc := Function.update s.pc w .inside }

def unlock (s : State) (w : Nat) : State :=
  { s with isLocked := false, pc := Function.update s.pc w .leave }

/-- The `fetch_add` of `unlock`. -/
def pass (s : State) (w : Nat) : State :=
  { s with
    serving := s.serving + 1
    pc := Function.update s.pc w .notify
    served := s.served + 1 }

def notifyAll (s : State) (w : Nat) : State :=
  { s with pc := Function.update (fun v => (s.pc v).wake) w .out }

def Free (s : State) : Prop := ∀ w, (s.pc w).holds = false

def NobodyWaits (s : State) : Prop := ∀ w, (s.pc w).mine = none

end State

inductive Step (w : Nat) : State → State → Prop
  | try_lock {s : State} (hpc : s.pc w = .out) : Step w s (s.read w)
  | exchange {s : State} {r : Ticket} (hpc : s.pc w = .cas r) (h : s.next = r) :
      Step w s ((s.draw w .mark).enter w)
  | fail {s : State} {r : Ticket} (hpc : s.pc w = .cas r) (h : s.next ≠ r) :
      Step w s (s.move w .out)
  | lock_poll {s : State} (hpc : s.pc w = .out) : Step w s (s.draw w (.load s.next))
  | turn {s : State} {m : Ticket} (hpc : s.pc w = .load m) (h : s.serving = m) :
      Step w s ((s.move w .mark).enter w)
  | load {s : State} {m : Ticket} (hpc : s.pc w = .load m) (h : s.serving ≠ m) :
      Step w s (s.move w (.wait m s.serving))
  | sleep {s : State} {m r : Ticket} (hpc : s.pc w = .wait m r) (h : s.serving = r) :
      Step w s (s.move w (.asleep m r))
  | pass_wait {s : State} {m r : Ticket} (hpc : s.pc w = .wait m r) (h : s.serving ≠ r) :
      Step w s (s.move w (.load m))
  -- a spurious wake-up; `wait` compares again
  | spurious {s : State} {m r : Ticket} (hpc : s.pc w = .asleep m r) :
      Step w s (s.move w (.wait m r))
  | lock {s : State} (hpc : s.pc w = .mark) : Step w s (s.lock w)
  | unlock {s : State} (hpc : s.pc w = .inside) : Step w s (s.unlock w)
  | fetch_add {s : State} (hpc : s.pc w = .leave) : Step w s (s.pass w)
  | notify_all {s : State} (hpc : s.pc w = .notify) : Step w s (s.notifyAll w)

inductive Runs (W : Nat) (ok : State → Nat → Prop) : State → Prop
  | start : Runs W ok State.start
  | step {s s' : State} (w : Nat) (hs : Runs W ok s) (hw : w < W) (hstep : Step w s s')
      (hok : ∀ r, s.pc w = .cas r → ok s w) : Runs W ok s'

/-- Fewer than 2^32 tickets were drawn since `try_lock` read the serving number. -/
def Recent (s : State) (w : Nat) : Prop := s.line.length - s.drawnAt w < 2 ^ 32

/-- The next ticket is fewer than 2^32 tickets past the serving number that `try_lock`
read. -/
def Near (s : State) (w : Nat) : Prop := s.line.length - s.readAt w < 2 ^ 32

/-- A step of worker `w`, or another worker's `notify_all` behind the `fetch_add` of its
`unlock`. -/
def Assisted (w : Nat) (s s' : State) : Prop :=
  Step w s s' ∨ ∃ u, s.pc u = .notify ∧ Step u s s'

def CanEnter (w : Nat) (s : State) : Prop :=
  ∃ s', Relation.ReflTransGen (Assisted w) s s' ∧ s'.pc w = .mark

structure Right (ok : State → Nat → Prop) (s : State) : Prop where
  alone : ∀ v w, (s.pc v).holds = true → (s.pc w).holds = true → v = w
  tries : ∀ w r, s.pc w = .cas r → ok s w → s.next = r → s.Free ∧ s.NobodyWaits
  order : s.entered <+: s.line
  serves : s.Free → s.NobodyWaits ∨ ∃ w, s.line[s.served]? = some w ∧
    (s.pc w).mine = some s.serving ∧ CanEnter w s

/-! ## Tickets and places in line -/

theorem ofNat_inj {a b : Nat} (h : BitVec.ofNat 32 a = BitVec.ofNat 32 b) (hle : a ≤ b)
    (hlap : b - a < 2 ^ 32) : b = a := by
  have hmod : a % 2 ^ 32 = b % 2 ^ 32 := by
    simpa only [BitVec.toNat_ofNat] using congrArg BitVec.toNat h
  exact Lap.eq_of_mod_eq hle (by omega) hmod.symm

theorem ofNat_succ (n : Nat) : BitVec.ofNat 32 n + 1 = BitVec.ofNat 32 (n + 1) :=
  (BitVec.ofNat_add n 1).symm

/-- The counters are the two ends of the tickets that are not served yet, and each of these
belongs to one worker that waits or has the poller. -/
structure Places (W : Nat) (s : State) : Prop where
  next : s.next = BitVec.ofNat 32 s.line.length
  serving : s.serving = BitVec.ofNat 32 s.served
  served_le : s.served ≤ s.line.length
  holder : ∀ k, s.served ≤ k → k < s.line.length →
    ∃ w < W, (s.pc w).engaged = true ∧ s.ticket w = k
  place : ∀ w, (s.pc w).engaged = true → s.served ≤ s.ticket w ∧ s.line[s.ticket w]? = some w
  waits : ∀ w m, (s.pc w).mine = some m → m = BitVec.ofNat 32 (s.ticket w)

structure Turns (s : State) : Prop where
  holds : ∀ w, (s.pc w).holds = true → s.ticket w = s.served
  entered_of_free : s.Free → s.entered = s.line.take s.served
  entered_of_holds : ∀ w, (s.pc w).holds = true → s.entered = s.line.take (s.served + 1)

variable {W : Nat} {s s' : State} {w : Nat} {f : Nat → Pc}

namespace Places

theorem lt_length (h : Places W s) (heng : (s.pc w).engaged = true) :
    s.ticket w < s.line.length :=
  (List.getElem?_eq_some_iff.mp (h.place w heng).2).1

theorem eq_of_ticket (h : Places W s) {v w : Nat} (hv : (s.pc v).engaged = true)
    (hw : (s.pc w).engaged = true) (heq : s.ticket v = s.ticket w) : v = w := by
  have hplace := (h.place v hv).2
  rw [heq, (h.place w hw).2] at hplace
  exact (Option.some.inj hplace).symm

/-- No more tickets are out than there are workers. -/
theorem length_sub_le (h : Places W s) : s.line.length - s.served ≤ W := by
  have hsurj : Set.SurjOn s.ticket (Finset.range W) (Finset.Ico s.served s.line.length) := by
    intro k hk
    have hk' := Finset.mem_Ico.mp hk
    obtain ⟨w, hw, -, hticket⟩ := h.holder k hk'.1 hk'.2
    exact ⟨w, Finset.mem_coe.mpr (Finset.mem_range.mpr hw), hticket⟩
  simpa using Finset.card_le_card_of_surjOn _ hsurj

theorem idle_of_served (h : Places W s) (heq : s.served = s.line.length) (v : Nat) :
    (s.pc v).engaged = false := by
  by_contra hne
  have heng := Bool.eq_true_of_not_eq_false hne
  have hle := (h.place v heng).1
  have hlt := h.lt_length heng
  omega

/-- The worker that reads its own ticket as the serving number has the next ticket. -/
theorem ticket_of_serving (h : Places W s) (hW : W < 2 ^ 32)
    (hmine : (s.pc w).mine = some s.serving) : s.ticket w = s.served := by
  have heng := Pc.engaged_of_mine hmine
  have heq := h.waits w _ hmine
  rw [h.serving] at heq
  have hlt := h.lt_length heng
  have hout := h.length_sub_le
  exact ofNat_inj heq (h.place w heng).1 (by omega)

theorem frame (h : Places W s) {b : Bool} {l : List Nat} {rd dr : Nat → Nat}
    (heng : ∀ v, (f v).engaged = (s.pc v).engaged)
    (hmine : ∀ v m, (f v).mine = some m → (s.pc v).mine = some m) :
    Places W { s with pc := f, isLocked := b, entered := l, readAt := rd, drawnAt := dr } where
  next := h.next
  serving := h.serving
  served_le := h.served_le
  holder := by
    intro k hk hlt
    obtain ⟨w, hw, hwe, hticket⟩ := h.holder k hk hlt
    exact ⟨w, hw, (heng w).trans hwe, hticket⟩
  place := by
    intro v hv
    exact h.place v ((heng v).symm.trans hv)
  waits := by
    intro v m hv
    exact h.waits v m (hmine v m hv)

theorem draw (h : Places W s) (hw : w < W) {pc : Pc} (hidle : (s.pc w).engaged = false)
    (heng : pc.engaged = true) (hmine : ∀ m, pc.mine = some m → m = s.next) :
    Places W (s.draw w pc) where
  next := by
    change s.next + 1 = BitVec.ofNat 32 (s.line ++ [w]).length
    rw [h.next, List.length_append, ofNat_succ]
    rfl
  serving := h.serving
  served_le := by
    change s.served ≤ (s.line ++ [w]).length
    rw [List.length_append]
    exact Nat.le_add_right_of_le h.served_le
  holder := by
    intro k hk hlt
    change k < (s.line ++ [w]).length at hlt
    rw [List.length_append, List.length_singleton] at hlt
    by_cases hlast : k = s.line.length
    · refine ⟨w, hw, ?_, ?_⟩
      · change (Function.update s.pc w pc w).engaged = true
        rw [Function.update_self, heng]
      · change Function.update s.ticket w s.line.length w = k
        rw [Function.update_self, hlast]
    · obtain ⟨v, hv, hve, hticket⟩ := h.holder k hk (by omega)
      have hne : v ≠ w := by
        intro heq
        rw [heq, hidle] at hve
        cases hve
      refine ⟨v, hv, ?_, ?_⟩
      · change (Function.update s.pc w pc v).engaged = true
        rw [Function.update_of_ne hne, hve]
      · change Function.update s.ticket w s.line.length v = k
        rw [Function.update_of_ne hne, hticket]
  place := by
    intro v hv
    change (Function.update s.pc w pc v).engaged = true at hv
    change s.served ≤ Function.update s.ticket w s.line.length v ∧
      (s.line ++ [w])[Function.update s.ticket w s.line.length v]? = some v
    by_cases heq : v = w
    · rw [heq, Function.update_self]
      exact ⟨h.served_le, List.getElem?_concat_length⟩
    · rw [Function.update_of_ne heq] at hv ⊢
      rw [List.getElem?_append_left (h.lt_length hv)]
      exact h.place v hv
  waits := by
    intro v m hv
    change (Function.update s.pc w pc v).mine = some m at hv
    change m = BitVec.ofNat 32 (Function.update s.ticket w s.line.length v)
    by_cases heq : v = w
    · rw [heq, Function.update_self] at hv ⊢
      rw [hmine m hv, h.next]
    · rw [Function.update_of_ne heq] at hv ⊢
      exact h.waits v m hv

theorem pass (h : Places W s) (heng : (s.pc w).engaged = true) (hticket : s.ticket w = s.served) :
    Places W (s.pass w) where
  next := h.next
  serving := by
    change s.serving + 1 = BitVec.ofNat 32 (s.served + 1)
    rw [h.serving, ofNat_succ]
  served_le := by
    have hlt := h.lt_length heng
    rw [hticket] at hlt
    exact hlt
  holder := by
    intro k hk hlt
    change s.served + 1 ≤ k at hk
    obtain ⟨v, hv, hve, hvk⟩ := h.holder k (by omega) hlt
    have hne : v ≠ w := by
      intro heq
      rw [heq, hticket] at hvk
      omega
    refine ⟨v, hv, ?_, hvk⟩
    change (Function.update s.pc w .notify v).engaged = true
    rw [Function.update_of_ne hne, hve]
  place := by
    intro v hv
    change (Function.update s.pc w .notify v).engaged = true at hv
    by_cases heq : v = w
    · rw [heq, Function.update_self] at hv
      cases hv
    · rw [Function.update_of_ne heq] at hv
      have hplace := h.place v hv
      refine ⟨Nat.lt_of_le_of_ne hplace.1 fun hserved => heq ?_, hplace.2⟩
      exact h.eq_of_ticket hv heng (hserved.symm.trans hticket.symm)
  waits := by
    intro v m hv
    change (Function.update s.pc w .notify v).mine = some m at hv
    by_cases heq : v = w
    · rw [heq, Function.update_self] at hv
      cases hv
    · rw [Function.update_of_ne heq] at hv
      exact h.waits v m hv

end Places

namespace Turns

theorem alone (h : Turns s) (hplaces : Places W s) {v w : Nat} (hv : (s.pc v).holds = true)
    (hw : (s.pc w).holds = true) : v = w := by
  have hticket := (h.holds v hv).trans (h.holds w hw).symm
  exact hplaces.eq_of_ticket (Pc.engaged_of_holds hv) (Pc.engaged_of_holds hw) hticket

/-- While the ticket that is served waits, nobody has the poller. -/
theorem free_of_waits (h : Turns s) (hplaces : Places W s) {m : Ticket}
    (hmine : (s.pc w).mine = some m) (hfree : (s.pc w).holds = false)
    (hticket : s.ticket w = s.served) : s.Free := by
  intro v
  by_contra hne
  have hv := Bool.eq_true_of_not_eq_false hne
  have heq := hplaces.eq_of_ticket (Pc.engaged_of_holds hv) (Pc.engaged_of_mine hmine)
    ((h.holds v hv).trans hticket.symm)
  rw [heq, hfree] at hv
  cases hv

theorem frame (h : Turns s) {b : Bool} {rd dr : Nat → Nat}
    (hholds : ∀ v, (f v).holds = (s.pc v).holds) :
    Turns { s with pc := f, isLocked := b, readAt := rd, drawnAt := dr } where
  holds := by
    intro v hv
    exact h.holds v ((hholds v).symm.trans hv)
  entered_of_free := by
    intro hfree
    exact h.entered_of_free fun v => (hholds v).symm.trans (hfree v)
  entered_of_holds := by
    intro v hv
    exact h.entered_of_holds v ((hholds v).symm.trans hv)

theorem draw (h : Turns s) (hplaces : Places W s) {pc : Pc} (hidle : (s.pc w).engaged = false)
    (hpc : pc.holds = false) : Turns (s.draw w pc) where
  holds := by
    intro v hv
    change (Function.update s.pc w pc v).holds = true at hv
    change Function.update s.ticket w s.line.length v = s.served
    by_cases heq : v = w
    · rw [heq, Function.update_self, hpc] at hv
      cases hv
    · rw [Function.update_of_ne heq] at hv ⊢
      exact h.holds v hv
  entered_of_free := by
    intro hfree
    have hfree' : s.Free := by
      intro v
      by_cases heq : v = w
      · rw [heq]
        rw [Pc.engaged, Bool.or_eq_false_iff] at hidle
        exact hidle.1
      · have hv : (Function.update s.pc w pc v).holds = false := hfree v
        rwa [Function.update_of_ne heq] at hv
    change s.entered = (s.line ++ [w]).take s.served
    rw [List.take_append_of_le_length hplaces.served_le]
    exact h.entered_of_free hfree'
  entered_of_holds := by
    intro v hv
    change (Function.update s.pc w pc v).holds = true at hv
    change s.entered = (s.line ++ [w]).take (s.served + 1)
    by_cases heq : v = w
    · rw [heq, Function.update_self, hpc] at hv
      cases hv
    · rw [Function.update_of_ne heq] at hv
      have hlt := hplaces.lt_length (Pc.engaged_of_holds hv)
      rw [h.holds v hv] at hlt
      rw [List.take_append_of_le_length hlt]
      exact h.entered_of_holds v hv

theorem enter (hpc : s'.pc = Function.update s.pc w .mark) (hfree : s.Free)
    (hentered : s'.entered = s'.line.take s'.served ++ [w]) (hticket : s'.ticket w = s'.served)
    (hplace : s'.line[s'.served]? = some w) : Turns s' where
  holds := by
    intro v hv
    by_cases heq : v = w
    · rw [heq, hticket]
    · rw [hpc, Function.update_of_ne heq, hfree v] at hv
      cases hv
  entered_of_free := by
    intro hfree'
    have hw := hfree' w
    rw [hpc, Function.update_self] at hw
    cases hw
  entered_of_holds := by
    intro v hv
    rw [hentered, List.take_add_one, hplace]
    rfl

theorem pass (h : Turns s) (hplaces : Places W s) (hw : (s.pc w).holds = true) :
    Turns (s.pass w) := by
  have hfree : (s.pass w).Free := by
    intro v
    change (Function.update s.pc w .notify v).holds = false
    by_cases heq : v = w
    · rw [heq, Function.update_self]
      rfl
    · rw [Function.update_of_ne heq]
      by_contra hne
      exact heq (h.alone hplaces (Bool.eq_true_of_not_eq_false hne) hw)
  exact {
    holds := by
      intro v hv
      rw [hfree v] at hv
      cases hv
    entered_of_free := fun _ => h.entered_of_holds w hw
    entered_of_holds := by
      intro v hv
      rw [hfree v] at hv
      cases hv }

end Turns

end Uvent.Pool.TicketLock
