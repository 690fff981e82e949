import Uvent.Timers.CancelOwnership
import Uvent.Timers.HandedOver

/-!
# The wheel that several threads share

Without `UVENT_ENABLE_REUSEADDR` the wheel is one for all workers.  `addTimer` takes its id
from an atomic counter and then enqueues the `ADD`, outside of the mutex; `tick` and the
cancels hold it.  The cancels take an id for drained that is not greater than the greatest
drained one, which is right only while no `ADD` with a smaller id is on its way.

`wheel` is what the mutex protects, with the memory of the timers.  The ids are drawn from
`counter` and the operations wait in `queue`; of the wheel's own fields for these the queue
stays empty and the counter follows `maxAddedId`.
-/

namespace Uvent.Timers

open TimerWheel Relation

/-- Who holds the mutex: nobody, a `tick` that drains the operations, or one that advances. -/
inductive Mutex where
  | free
  | draining
  | advancing
  deriving DecidableEq, Repr

/-- `adding` has the timer and the id of a thread between the two steps of `addTimer`. -/
structure SharedWheel where
  wheel : TimerWheel
  counter : Nat
  queue : List Op
  adding : Nat → Option (Ptr × Nat)
  mutex : Mutex

/-- A queued `ADD` of the id will be dropped. -/
def Marked (w : TimerWheel) (id : Nat) : Prop := id ∈ w.cancelledPending ∨ id ∈ w.detachedPending

namespace SharedWheel

def new (clock : Clock) : SharedWheel := ⟨.new clock, 0, [], fun _ => none, .free⟩

/-- The `ADD` of the timer is not drained, or not even enqueued. -/
def InFlight (s : SharedWheel) (p : Ptr) (id : Nat) : Prop :=
  (∃ t, s.adding t = some (p, id)) ∨ Op.add p id ∈ s.queue

/-- A timer may be added: it is armed and not in the wheel, and an `ADD` of the same object
that is still on its way will be dropped. -/
structure MayAdd (s : SharedWheel) (p : Ptr) (timer : Timer) : Prop where
  armed : timer.active = true
  unmapped : ∀ id, s.wheel.timerMap id ≠ some p
  queued : ∀ id, s.InFlight p id → Marked s.wheel id

/-- `addTimer` up to the `fetch_add` and the store of the id. -/
def take (s : SharedWheel) (t : Nat) (p : Ptr) (timer : Timer) (expiry : Nat) : SharedWheel :=
  let id := s.counter + 1
  let w := s.wheel.arm p { timer with expiryTime := expiry, id := id }
  { s with
    wheel := { w with addedAs := Function.update w.addedAs id (some p) }.record
      (.added id p timer.payload),
    counter := id, adding := Function.update s.adding t (some (p, id)) }

def enqueue (s : SharedWheel) (op : Op) : SharedWheel := { s with queue := s.queue ++ [op] }

def put (s : SharedWheel) (t : Nat) (p : Ptr) (id : Nat) : SharedWheel :=
  { s.enqueue (.add p id) with adding := Function.update s.adding t none }

def drain (clock : Clock) (s : SharedWheel) (op : Op) (rest : List Op) : SharedWheel :=
  let w := s.wheel.applyOp clock op
  { s with wheel := { w with timerIdCounter := w.maxAddedId }, queue := rest }

end SharedWheel

open SharedWheel

/-- A step of a thread.  The rest of `tick` behind its loop is a `tick` of the wheel, whose
own queue is empty. -/
inductive SharedStep (clock : Clock) (s : SharedWheel) : SharedWheel → Prop where
  | take (t : Nat) (p : Ptr) (timer : Timer) (expiry : Nat) (h : s.adding t = none)
      (ok : s.MayAdd p timer) : SharedStep clock s (s.take t p timer expiry)
  | put (t : Nat) (p : Ptr) (id : Nat) (h : s.adding t = some (p, id)) :
      SharedStep clock s (s.put t p id)
  | updateTimer (id newDur : Nat) : SharedStep clock s (s.enqueue (.update id newDur))
  | removeTimer (id : Nat) (done : Option (Nat × Nat)) :
      SharedStep clock s (s.enqueue (.remove id done))
  | cancelTimer (id : Nat) (h : s.mutex = .free) :
      SharedStep clock s { s with wheel := (s.wheel.cancelTimer id).2 }
  | cancelTimerDetach (id : Nat) (h : s.mutex = .free) :
      SharedStep clock s { s with wheel := (s.wheel.cancelTimerDetach id).2 }
  | lock (h : s.mutex = .free) : SharedStep clock s { s with mutex := .draining }
  | drain (op : Op) (rest : List Op) (h : s.mutex = .draining) (head : s.queue = op :: rest) :
      SharedStep clock s (s.drain clock op rest)
  | drained (h : s.mutex = .draining) (hempty : s.queue = []) :
      SharedStep clock s { s with mutex := .advancing }
  | advance (fuel : Nat) (w : TimerWheel) (h : s.mutex = .advancing)
      (hrun : s.wheel.tick clock fuel = some w) :
      SharedStep clock s { s with wheel := w, mutex := .free }

/-- No `ADD` that is on its way and will be admitted has an id that the cancels take for
drained. -/
def SharedWheel.Ordered (s : SharedWheel) : Prop :=
  ∀ p id, s.InFlight p id → ¬ Marked s.wheel id → s.wheel.maxAddedId < id

inductive SharedRuns (clock : Clock) : SharedWheel → Prop where
  | start : SharedRuns clock (.new clock)
  | step {s s' : SharedWheel} (hs : SharedRuns clock s) (h : SharedStep clock s s') :
      SharedRuns clock s'

/-- The runs in which the wheel is `Ordered` whenever a `tick` lets the mutex go. -/
inductive OrderedRuns (clock : Clock) : SharedWheel → Prop where
  | start : OrderedRuns clock (.new clock)
  | step {s s' : SharedWheel} (hs : OrderedRuns clock s) (h : SharedStep clock s s')
      (hordered : s.mutex = .advancing → s'.mutex = .free → s.Ordered) : OrderedRuns clock s'

/-! ## What the calls under the mutex leave alone -/

/-- What the cancels, the operations other than `ADD` and the rest of `tick` do to the map
and to timers that are not in the wheel. -/
structure Leaves (w w' : TimerWheel) : Prop where
  max : w'.maxAddedId = w.maxAddedId
  unmapped : ∀ id, w.timerMap id = none → w'.timerMap id = none
  mapped : ∀ id, w.timerMap id ≠ none → w'.timerMap id ≠ none ∨ Spent w'.log id
  spent : ∀ id, Spent w.log id → Spent w'.log id
  marked : ∀ id, Marked w id → Marked w' id
  marks : ∀ id, Marked w' id → Marked w id ∨ Spent w'.log id
  unheld : ∀ p, ¬ w.Holds p → ¬ w'.Holds p ∧ (w'.mem p).id = (w.mem p).id ∧
    (w'.mem p).active = (w.mem p).active

theorem Leaves.refl (w : TimerWheel) : Leaves w w :=
  ⟨rfl, fun _ h => h, fun _ h => .inl h, fun _ h => h, fun _ h => h, fun _ h => .inl h,
    fun _ h => ⟨h, rfl, rfl⟩⟩

theorem Leaves.trans {w w₁ w₂ : TimerWheel} (h : Leaves w w₁) (h' : Leaves w₁ w₂) :
    Leaves w w₂ where
  max := h'.max.trans h.max
  unmapped id hid := h'.unmapped id (h.unmapped id hid)
  mapped id hid := by
    obtain hmap | hspent := h.mapped id hid
    · exact h'.mapped id hmap
    · exact .inr (h'.spent id hspent)
  spent id hid := h'.spent id (h.spent id hid)
  marked id hid := h'.marked id (h.marked id hid)
  marks id hid := by
    obtain hmark | hspent := h'.marks id hid
    · obtain hmark | hspent := h.marks id hmark
      · exact .inl hmark
      · exact .inr (h'.spent id hspent)
    · exact .inr hspent
  unheld p hp := by
    obtain ⟨hp₁, hid₁, hact₁⟩ := h.unheld p hp
    obtain ⟨hp₂, hid₂, hact₂⟩ := h'.unheld p hp₁
    exact ⟨hp₂, hid₂.trans hid₁, hact₂.trans hact₁⟩

section Leaves

variable {w w' : TimerWheel}

theorem Leaves.of_still (hb : w'.buckets = w.buckets) (hm : w'.mem = w.mem)
    {q : List Op} {c d : Finset Nat} {r : Finset Ptr} {l : List Event} {n : Nat}
    (books : w'.books = { w.books with
      timerOperationsQueue := q, cancelledPending := c, detachedPending := d, released := r,
      log := l ++ w.log, currentTime := n })
    (hc : w.cancelledPending ⊆ c) (hd : w.detachedPending ⊆ d)
    (hmarks : ∀ id, id ∈ c ∨ id ∈ d → Marked w id ∨ Spent (l ++ w.log) id) :
    Leaves w w' := by
  have hmap : w'.timerMap = w.timerMap := congrArg Books.timerMap books
  have hc' : w'.cancelledPending = c := congrArg Books.cancelledPending books
  have hd' : w'.detachedPending = d := congrArg Books.detachedPending books
  have hlog : w'.log = l ++ w.log := congrArg Books.log books
  refine ⟨congrArg Books.maxAddedId books, fun id hid => by rw [hmap]; exact hid,
    fun id hid => .inl (by rw [hmap]; exact hid), fun id hid => ?_, fun id hid => ?_,
    fun id hid => ?_, fun p hp => ?_⟩
  · rw [hlog, spent_append]
    exact .inr hid
  · rw [Marked, hc', hd']
    exact hid.imp (fun h => hc h) fun h => hd h
  · rw [Marked, hc', hd'] at hid
    rw [hlog]
    exact hmarks id hid
  · refine ⟨?_, by rw [hm], by rw [hm]⟩
    unfold Holds at hp ⊢
    rw [hb]
    exact hp

theorem Leaves.of_moved_on {p : Ptr} {target : Nat × Nat} {f : Timer → Timer} (hp : w.Holds p)
    (moved : Moved w w' p (some target) f) {l : List Event}
    (books : w'.books = { w.books with log := l ++ w.log }) : Leaves w w' := by
  have hmap : w'.timerMap = w.timerMap := congrArg Books.timerMap books
  have hc : w'.cancelledPending = w.cancelledPending := congrArg Books.cancelledPending books
  have hd : w'.detachedPending = w.detachedPending := congrArg Books.detachedPending books
  have hlog : w'.log = l ++ w.log := congrArg Books.log books
  refine ⟨congrArg Books.maxAddedId books, fun id hid => by rw [hmap]; exact hid,
    fun id hid => .inl (by rw [hmap]; exact hid), fun id hid => ?_, fun id hid => ?_,
    fun id hid => ?_, fun q hq => ?_⟩
  · rw [hlog, spent_append]
    exact .inr hid
  · rw [Marked, hc, hd]
    exact hid
  · rw [Marked, hc, hd] at hid
    exact .inl hid
  · have hne : q ≠ p := by
      rintro rfl
      exact hq hp
    have hsame := moved.others q hne
    refine ⟨?_, Timer.id_of_unplaced hsame, Timer.active_of_unplaced hsame⟩
    rw [moved.holds_iff]
    simp [hq, hne]

theorem Leaves.of_moved_out {p : Ptr} {id : Nat} {f : Timer → Timer} (hp : w.Holds p)
    (moved : Moved w w' p none f) {e : Event} (hends : e.Ends id)
    (books : w'.books = { w.books with
      timerMap := Function.update w.timerMap id none,
      activeTimerCount := w.activeTimerCount - 1, log := e :: w.log }) : Leaves w w' := by
  have hmap : w'.timerMap = Function.update w.timerMap id none := congrArg Books.timerMap books
  have hc : w'.cancelledPending = w.cancelledPending := congrArg Books.cancelledPending books
  have hd : w'.detachedPending = w.detachedPending := congrArg Books.detachedPending books
  have hlog : w'.log = e :: w.log := congrArg Books.log books
  refine ⟨congrArg Books.maxAddedId books, fun x hx => ?_, fun x hx => ?_, fun x hx => ?_,
    fun x hx => ?_, fun x hx => ?_, fun q hq => ?_⟩
  · rw [hmap]
    by_cases hxid : x = id
    · rw [hxid, Function.update_self]
    · rw [Function.update_of_ne hxid]
      exact hx
  · by_cases hxid : x = id
    · rw [hlog, spent_cons, hxid]
      exact .inr (.inl hends)
    · rw [hmap, Function.update_of_ne hxid]
      exact .inl hx
  · rw [hlog, spent_cons]
    exact .inr hx
  · rw [Marked, hc, hd]
    exact hx
  · rw [Marked, hc, hd] at hx
    exact .inl hx
  · have hne : q ≠ p := by
      rintro rfl
      exact hq hp
    have hsame := moved.others q hne
    refine ⟨?_, Timer.id_of_unplaced hsame, Timer.active_of_unplaced hsame⟩
    rw [moved.holds_iff]
    simp [hq]

theorem Effect.counter_le {policy : Policy} (heff : Effect policy w w') :
    w.timerIdCounter ≤ w'.timerIdCounter := by
  cases heff with
  | add _ _ _ _ _ _ books =>
      have hcounter : w'.timerIdCounter = w.timerIdCounter + 1 := congrArg Books.timerIdCounter books
      omega
  | quiet _ books | refresh _ _ books | note _ _ _ books | refused _ _ _ _ books
  | update _ _ _ books | remove _ _ _ _ books | pendCancel _ _ _ _ _ _ books
  | pendDetach _ _ _ _ _ _ books | pendRemove _ _ _ _ _ _ _ _ _ _ books
  | release _ _ _ _ books | pop _ _ _ _ _ books | dropDetached _ _ _ _ _ _ books
  | dropCancelled _ _ _ _ _ _ _ _ books | accept _ _ _ _ _ _ _ books
  | rearm _ _ _ _ _ _ books | unlink _ _ _ _ _ _ books | fire _ _ _ _ _ books
  | relink _ _ _ _ _ books | pass _ _ books =>
      exact (congrArg Books.timerIdCounter books).ge

/-- No `ADD` waits in the wheel's own queue. -/
theorem Inv.no_add (h : Inv w) (hcounter : w.timerIdCounter = w.maxAddedId) (p : Ptr) (id : Nat) :
    Op.add p id ∉ w.timerOperationsQueue := by
  intro hmem
  have := h.queued_bounds hmem
  omega

theorem Leaves.of_effect {policy : Policy} (h : Inv w) (hcounter : w.timerIdCounter = w.maxAddedId)
    (hsame : w'.timerIdCounter = w.timerIdCounter) (heff : Effect policy w w') : Leaves w w' := by
  have hc : w.cancelledPending ⊆ w.cancelledPending := Finset.Subset.refl _
  have hd : w.detachedPending ⊆ w.detachedPending := Finset.Subset.refl _
  have hold : ∀ (l : List Event) id, id ∈ w.cancelledPending ∨ id ∈ w.detachedPending →
      Marked w id ∨ Spent (l ++ w.log) id := fun _ _ hmark => .inl hmark
  cases heff with
  | quiet still books => exact .of_still still.buckets still.mem (l := []) books hc hd (hold [])
  | refresh hb hm books => exact .of_still hb hm (l := []) books hc hd (hold [])
  | note e _ still books =>
      exact .of_still still.buckets still.mem (l := [e]) books hc hd (hold [e])
  | refused id _ _ still books =>
      exact .of_still still.buckets still.mem (l := [.refused id]) books hc hd (hold _)
  | update id newDur still books =>
      exact .of_still still.buckets still.mem (l := []) books hc hd (hold [])
  | remove id done _ still books =>
      exact .of_still still.buckets still.mem (l := []) books hc hd (hold [])
  | add p t expiry ok hb hm books =>
      have hcounter' : w'.timerIdCounter = w.timerIdCounter + 1 :=
        congrArg Books.timerIdCounter books
      omega
  | pendCancel id _ _ _ _ still books =>
      refine .of_still still.buckets still.mem (l := [.cancelled id]) books
        (Finset.subset_insert _ _) hd fun x hx => ?_
      rw [Finset.mem_insert, or_assoc] at hx
      obtain rfl | hx := hx
      · exact .inr (spent_cons.mpr (.inl (.inr (.inr rfl))))
      · exact .inl hx
  | pendDetach id _ _ _ _ still books =>
      refine .of_still still.buckets still.mem (l := [.cancelled id]) books hc
        (Finset.subset_insert _ _) fun x hx => ?_
      rw [Finset.mem_insert, or_left_comm] at hx
      obtain rfl | hx := hx
      · exact .inr (spent_cons.mpr (.inl (.inr (.inr rfl))))
      · exact .inl hx
  | pendRemove id done rest plain released _ head _ _ still books =>
      have hbooks : w'.books = { w.books with
          timerOperationsQueue := rest, cancelledPending := insert id w.cancelledPending,
          released := released, log := plain ++ [.removed id] ++ w.log } := by
        rw [List.append_assoc]
        exact books
      refine .of_still still.buckets still.mem hbooks (Finset.subset_insert _ _) hd fun x hx => ?_
      rw [Finset.mem_insert, or_assoc] at hx
      obtain rfl | hx := hx
      · rw [List.append_assoc, spent_append]
        exact .inr (.inr (spent_cons.mpr (.inl (.inr (.inl rfl)))))
      · exact .inl hx
  | release id _ _ still books =>
      exact .of_still still.buckets still.mem (l := []) books hc hd (hold [])
  | pop op rest head other still books =>
      exact .of_still still.buckets still.mem (l := []) books hc hd (hold [])
  | dropDetached p id rest head =>
      exact absurd (by rw [head]; exact List.mem_cons_self) (h.no_add hcounter p id)
  | dropCancelled p id rest head =>
      exact absurd (by rw [head]; exact List.mem_cons_self) (h.no_add hcounter p id)
  | accept p id rest head =>
      exact absurd (by rw [head]; exact List.mem_cons_self) (h.no_add hcounter p id)
  | rearm id p newDur expiry hp moved books =>
      exact .of_moved_on (h.held id p hp).2 moved (l := [_]) books
  | unlink id p e kind hp moved books =>
      refine .of_moved_out (h.held id p hp).2 moved (kind.elim ?_ ?_) books
      · exact fun he => .inr (.inr he)
      · exact fun he => .inr (.inl he)
  | fire p _ hp _ moved books => exact .of_moved_out hp moved (.inl ⟨_, _, rfl⟩) books
  | relink p _ hp _ moved books => exact .of_moved_on hp moved (l := []) books
  | pass _ still books => exact .of_still still.buckets still.mem (l := []) books hc hd (hold [])

theorem Leaves.of_effects {policy : Policy} (h : Inv w) (hcounter : w.timerIdCounter = w.maxAddedId)
    (heffs : Effects policy w w') (hsame : w'.timerIdCounter = w.timerIdCounter) : Leaves w w' := by
  have hle : ∀ {w₁ w₂ : TimerWheel}, Effects policy w₁ w₂ →
      w₁.timerIdCounter ≤ w₂.timerIdCounter := by
    intro w₁ w₂ heffs
    induction heffs with
    | refl => exact le_rfl
    | tail _ heff ih => exact ih.trans heff.counter_le
  induction heffs with
  | refl => exact .refl w
  | tail hpre heff ih =>
      have hfirst := hle hpre
      have hlast := heff.counter_le
      have hleaves := ih (by omega)
      have hmax := hleaves.max
      exact hleaves.trans (.of_effect (h.effects hpre) (by omega) (by omega) heff)

end Leaves

/-! ## Calls under the mutex neither draw ids nor enqueue -/

structure SameQueue (w w' : TimerWheel) : Prop where
  counter : w'.timerIdCounter = w.timerIdCounter
  queue : w'.timerOperationsQueue = w.timerOperationsQueue

section SameQueue

variable {w w' : TimerWheel}

theorem SameQueue.refl (w : TimerWheel) : SameQueue w w := ⟨rfl, rfl⟩

theorem SameQueue.trans {w w₁ w₂ : TimerWheel} (h : SameQueue w w₁) (h' : SameQueue w₁ w₂) :
    SameQueue w w₂ := ⟨h'.counter.trans h.counter, h'.queue.trans h.queue⟩

theorem SameQueue.of_silent (h : Silent w w') : SameQueue w w' := ⟨h.counter, h.queue⟩

theorem sameQueue_runFired (w : TimerWheel) : SameQueue w w.runFired := by
  rw [runFired_eq]
  exact ⟨rfl, rfl⟩

theorem sameQueue_tick {clock : Clock} {fuel : Nat} (hempty : w.timerOperationsQueue = [])
    (hrun : w.tick clock fuel = some w') : SameQueue w w' := by
  have hdrain : w.drainOps clock = w := by
    rw [drainOps, hempty]
    rfl
  unfold tick at hrun
  rw [hdrain] at hrun
  dsimp only at hrun
  split at hrun
  · obtain rfl := Option.some.inj hrun
    have hread : SameQueue w w.afterReading := ⟨rfl, rfl⟩
    exact hread.trans (.of_silent (silent_refreshNextExpiry _))
  · split at hrun
    · cases hrun
    · next w₁ hadv =>
        obtain rfl := Option.some.inj hrun
        have hread : SameQueue w w.afterReading := ⟨rfl, rfl⟩
        have hands := hands_advanceBy _ hadv
        have hadvance : SameQueue w w₁ := hread.trans ⟨hands.counter, hands.queue⟩
        have hrefresh : SameQueue w w₁.refreshNextExpiry :=
          hadvance.trans (.of_silent (silent_refreshNextExpiry w₁))
        exact hrefresh.trans (sameQueue_runFired _)

end SameQueue

/-! ## The invariant -/

structure SharedInv (s : SharedWheel) : Prop where
  wheel : Inv s.wheel
  empty : s.wheel.timerOperationsQueue = []
  follows : s.wheel.timerIdCounter = s.wheel.maxAddedId
  drawn : s.wheel.maxAddedId ≤ s.counter
  once : (addIds s.queue).Nodup
  apart : ∀ t p id, s.adding t = some (p, id) → id ∉ addIds s.queue
  alone : ∀ t t' p p' id, s.adding t = some (p, id) → s.adding t' = some (p', id) → t = t'
  flying : ∀ p id, s.InFlight p id → 0 < id ∧ id ≤ s.counter ∧ s.wheel.timerMap id = none
  live : ∀ p id, s.InFlight p id → ¬ Marked s.wheel id →
    (s.wheel.mem p).id = id ∧ (s.wheel.mem p).active = true ∧ ¬ s.wheel.Holds p
  told : ∀ id, 0 < id → id ≤ s.counter →
    (∃ p, s.InFlight p id) ∨ s.wheel.timerMap id ≠ none ∨ Spent s.wheel.log id
  marks : ∀ id, Marked s.wheel id → Spent s.wheel.log id

theorem sharedInv_new (clock : Clock) : SharedInv (.new clock) where
  wheel := inv_new clock
  empty := rfl
  follows := rfl
  drawn := le_rfl
  once := List.nodup_nil
  apart t p id h := by cases h
  alone t t' p p' id h := by cases h
  flying p id h := by
    obtain ⟨t, h⟩ | h := h
    · cases h
    · cases h
  live p id h := by
    obtain ⟨t, h⟩ | h := h
    · cases h
    · cases h
  told id hpos hle := by
    have : id ≤ 0 := hle
    omega
  marks id h := by
    obtain h | h := h
    · cases h
    · cases h

section Steps

variable {s : SharedWheel}

/-- The operations on their way stay, and the wheel only loses timers that it ends. -/
theorem SharedInv.of_leaves (h : SharedInv s) {w : TimerWheel} (hw : Inv w)
    (hleaves : Leaves s.wheel w) (hsame : SameQueue s.wheel w) {ops : List Op} {m : Mutex}
    (hids : addIds ops = addIds s.queue)
    (hadds : ∀ p id, Op.add p id ∈ ops ↔ Op.add p id ∈ s.queue) :
    SharedInv { s with wheel := w, queue := ops, mutex := m } := by
  have hflight : ∀ p id, InFlight { s with wheel := w, queue := ops, mutex := m } p id ↔
      s.InFlight p id := fun p id => or_congr_right (hadds p id)
  exact {
    wheel := hw
    empty := hsame.queue.trans h.empty
    follows := hsame.counter.trans (h.follows.trans hleaves.max.symm)
    drawn := hleaves.max.trans_le h.drawn
    once := by
      rw [hids]
      exact h.once
    apart := fun t p id hid => by
      rw [hids]
      exact h.apart t p id hid
    alone := h.alone
    flying := fun p id hfly => by
      obtain ⟨hpos, hle, hnone⟩ := h.flying p id ((hflight p id).mp hfly)
      exact ⟨hpos, hle, hleaves.unmapped id hnone⟩
    live := fun p id hfly hmark => by
      have hold := mt (hleaves.marked id) hmark
      obtain ⟨hid, hact, hnot⟩ := h.live p id ((hflight p id).mp hfly) hold
      obtain ⟨hnot', hid', hact'⟩ := hleaves.unheld p hnot
      exact ⟨hid'.trans hid, hact'.trans hact, hnot'⟩
    told := fun id hpos hle => by
      obtain ⟨p, hfly⟩ | hmap | hspent := h.told id hpos hle
      · exact .inl ⟨p, (hflight p id).mpr hfly⟩
      · exact .inr (hleaves.mapped id hmap)
      · exact .inr (.inr (hleaves.spent id hspent))
    marks := fun id hmark => by
      obtain hold | hspent := hleaves.marks id hmark
      · exact hleaves.spent id (h.marks id hold)
      · exact hspent }

theorem SharedInv.of_effects (h : SharedInv s) {policy : Policy} {w : TimerWheel}
    (heffs : Effects policy s.wheel w) (hsame : SameQueue s.wheel w) {ops : List Op}
    {m : Mutex} (hids : addIds ops = addIds s.queue)
    (hadds : ∀ p id, Op.add p id ∈ ops ↔ Op.add p id ∈ s.queue) :
    SharedInv { s with wheel := w, queue := ops, mutex := m } :=
  h.of_leaves (h.wheel.effects heffs)
    (.of_effects h.wheel h.follows heffs hsame.counter) hsame hids hadds

theorem SharedInv.enqueue (h : SharedInv s) {op : Op} (other : ∀ p id, op ≠ .add p id) :
    SharedInv (s.enqueue op) := by
  refine h.of_leaves h.wheel (.refl _) (.refl _) (m := s.mutex) ?_ fun p id => ?_
  · rw [addIds_append, addIds_of_ne_add other, List.append_nil]
  · rw [List.mem_append, List.mem_singleton]
    exact or_iff_left fun heq => other p id heq.symm

theorem mem_of_mem_addIds {ops : List Op} {id : Nat} (h : id ∈ addIds ops) :
    ∃ p, Op.add p id ∈ ops := by
  obtain ⟨op, hop, hid⟩ := List.mem_filterMap.mp h
  cases op with
  | add p x =>
      obtain rfl := Option.some.inj hid
      exact ⟨p, hop⟩
  | update id newDur => cases hid
  | remove id done => cases hid

theorem take_adding {t : Nat} {p : Ptr} {timer : Timer} {expiry t' id : Nat} {q : Ptr}
    (h : (s.take t p timer expiry).adding t' = some (q, id)) :
    (t' = t ∧ q = p ∧ id = s.counter + 1) ∨ (t' ≠ t ∧ s.adding t' = some (q, id)) := by
  have hadding : (s.take t p timer expiry).adding =
      Function.update s.adding t (some (p, s.counter + 1)) := rfl
  rw [hadding] at h
  by_cases htt : t' = t
  · rw [htt, Function.update_self] at h
    obtain ⟨rfl, rfl⟩ := Prod.mk.inj (Option.some.inj h)
    exact .inl ⟨htt, rfl, rfl⟩
  · rw [Function.update_of_ne htt] at h
    exact .inr ⟨htt, h⟩

theorem take_inFlight {t : Nat} {p : Ptr} {timer : Timer} {expiry id : Nat} {q : Ptr}
    (h : (s.take t p timer expiry).InFlight q id) :
    (q = p ∧ id = s.counter + 1) ∨ s.InFlight q id := by
  obtain ⟨t', ht'⟩ | hq := h
  · obtain ⟨-, hpair⟩ | ⟨-, hold⟩ := take_adding ht'
    · exact .inl hpair
    · exact .inr (.inl ⟨t', hold⟩)
  · exact .inr (.inr hq)

theorem put_adding {t : Nat} {p : Ptr} {id t' x : Nat} {q : Ptr}
    (h : (s.put t p id).adding t' = some (q, x)) : t' ≠ t ∧ s.adding t' = some (q, x) := by
  have hadding : (s.put t p id).adding = Function.update s.adding t none := rfl
  rw [hadding] at h
  by_cases htt : t' = t
  · rw [htt, Function.update_self] at h
    cases h
  · rw [Function.update_of_ne htt] at h
    exact ⟨htt, h⟩

theorem put_queue {t : Nat} {p q : Ptr} {id x : Nat} :
    Op.add q x ∈ (s.put t p id).queue ↔ Op.add q x ∈ s.queue ∨ (q = p ∧ x = id) := by
  have happend : (s.put t p id).queue = s.queue ++ [.add p id] := rfl
  rw [happend, List.mem_append, List.mem_singleton, Op.add.injEq]

theorem put_inFlight {t : Nat} {p : Ptr} {id : Nat} (ht : s.adding t = some (p, id)) (q : Ptr)
    (x : Nat) : (s.put t p id).InFlight q x ↔ s.InFlight q x := by
  constructor
  · rintro (⟨t', ht'⟩ | hq)
    · exact .inl ⟨t', (put_adding ht').2⟩
    · obtain hq | ⟨rfl, rfl⟩ := put_queue.mp hq
      · exact .inr hq
      · exact .inl ⟨t, ht⟩
  · rintro (⟨t', ht'⟩ | hq)
    · by_cases htt : t' = t
      · rw [htt, ht] at ht'
        obtain ⟨rfl, rfl⟩ := Prod.mk.inj (Option.some.inj ht')
        exact .inr (put_queue.mpr (.inr ⟨rfl, rfl⟩))
      · exact .inl ⟨t', (Function.update_of_ne htt _ _).trans ht'⟩
    · exact .inr (put_queue.mpr (.inl hq))

theorem enqueue_inFlight {op : Op} (other : ∀ p id, op ≠ .add p id) (p : Ptr) (id : Nat) :
    (s.enqueue op).InFlight p id ↔ s.InFlight p id := by
  have happend : (s.enqueue op).queue = s.queue ++ [op] := rfl
  unfold InFlight
  rw [happend, List.mem_append, List.mem_singleton]
  exact or_congr_right (or_iff_left fun heq => other p id heq.symm)

theorem SharedInv.take (h : SharedInv s) {t : Nat} {p : Ptr} {timer : Timer} {expiry : Nat}
    (hidle : s.adding t = none) (ok : s.MayAdd p timer) :
    SharedInv (s.take t p timer expiry) := by
  have hnot : ¬ s.wheel.Holds p := fun hp => ok.unmapped _ (h.wheel.known p hp).2
  have hmax := h.drawn
  have hadding : (s.take t p timer expiry).adding =
      Function.update s.adding t (some (p, s.counter + 1)) := rfl
  have hmem : (s.take t p timer expiry).wheel.mem = Function.update s.wheel.mem p
      { timer with expiryTime := expiry, id := s.counter + 1 } := rfl
  have hstay : ∀ q id, s.InFlight q id → (s.take t p timer expiry).InFlight q id := by
    rintro q id (⟨t', ht'⟩ | hq)
    · have htt : t' ≠ t := by
        rintro rfl
        rw [hidle] at ht'
        cases ht'
      refine .inl ⟨t', ?_⟩
      rw [hadding, Function.update_of_ne htt]
      exact ht'
    · exact .inr hq
  have hold : ∀ t' q id, s.adding t' = some (q, id) → id ≤ s.counter :=
    fun t' q id ht' => (h.flying q id (.inl ⟨t', ht'⟩)).2.1
  have hspent : ∀ id, Spent s.wheel.log id → Spent (s.take t p timer expiry).wheel.log id :=
    fun id hid => spent_cons.mpr (.inr hid)
  refine ⟨?_, h.empty, h.follows, ?_, h.once, ?_, ?_, ?_, ?_, ?_, ?_⟩
  · refine h.wheel.of_arm hnot rfl hmem (n := s.wheel.timerIdCounter)
      (q := s.wheel.timerOperationsQueue) rfl h.wheel.issued h.wheel.queued ?_
    rw [h.empty]
    exact fun q id hq => absurd hq List.not_mem_nil
  · exact Nat.le_succ_of_le hmax
  · intro t' q id ht' hq
    obtain ⟨-, -, rfl⟩ | ⟨-, hid⟩ := take_adding ht'
    · obtain ⟨r, hr⟩ := mem_of_mem_addIds hq
      have := (h.flying r _ (.inr hr)).2.1
      omega
    · exact h.apart t' q id hid hq
  · intro t₁ t₂ p₁ p₂ id h₁ h₂
    obtain ⟨rfl, -, hid⟩ | ⟨-, h₁⟩ := take_adding h₁
    · obtain ⟨rfl, -⟩ | ⟨-, h₂⟩ := take_adding h₂
      · rfl
      · have := hold t₂ p₂ id h₂
        omega
    · obtain ⟨-, -, hid⟩ | ⟨-, h₂⟩ := take_adding h₂
      · have := hold t₁ p₁ id h₁
        omega
      · exact h.alone t₁ t₂ p₁ p₂ id h₁ h₂
  · intro q id hfly
    obtain ⟨rfl, rfl⟩ | hfly := take_inFlight hfly
    · exact ⟨Nat.succ_pos _, le_rfl, h.wheel.unmapped_of_new (by omega)⟩
    · obtain ⟨hpos, hle, hnone⟩ := h.flying q id hfly
      exact ⟨hpos, Nat.le_succ_of_le hle, hnone⟩
  · intro q id hfly hmark
    rw [hmem]
    obtain ⟨rfl, rfl⟩ | hbefore := take_inFlight hfly
    · rw [Function.update_self]
      exact ⟨rfl, ok.armed, hnot⟩
    · have hqp : q ≠ p := fun heq => hmark (ok.queued id (heq ▸ hbefore))
      rw [Function.update_of_ne hqp]
      exact h.live q id hbefore hmark
  · intro id hpos hle
    have hle : id ≤ s.counter + 1 := hle
    obtain rfl | hlt : id = s.counter + 1 ∨ id ≤ s.counter := by omega
    · refine .inl ⟨p, .inl ⟨t, ?_⟩⟩
      rw [hadding, Function.update_self]
    · obtain ⟨q, hfly⟩ | hmap | hid := h.told id hpos hlt
      · exact .inl ⟨q, hstay q id hfly⟩
      · exact .inr (.inl hmap)
      · exact .inr (.inr (hspent id hid))
  · exact fun id hid => hspent id (h.marks id hid)

theorem SharedInv.put (h : SharedInv s) {t : Nat} {p : Ptr} {id : Nat}
    (ht : s.adding t = some (p, id)) : SharedInv (s.put t p id) := by
  have hids : addIds (s.put t p id).queue = addIds s.queue ++ [id] := addIds_append ..
  refine ⟨h.wheel, h.empty, h.follows, h.drawn, ?_, ?_, ?_, ?_, ?_, ?_, h.marks⟩
  · rw [hids]
    exact List.nodup_append.mpr ⟨h.once, List.nodup_singleton id, fun x hx y hy => by
      rw [List.mem_singleton] at hy
      rintro rfl
      exact h.apart t p id ht (hy ▸ hx)⟩
  · intro t' q x ht' hx
    obtain ⟨hne, hold⟩ := put_adding ht'
    rw [hids, List.mem_append, List.mem_singleton] at hx
    obtain hx | rfl := hx
    · exact h.apart t' q x hold hx
    · exact hne (h.alone t' t q p x hold ht)
  · intro t₁ t₂ p₁ p₂ x h₁ h₂
    exact h.alone t₁ t₂ p₁ p₂ x (put_adding h₁).2 (put_adding h₂).2
  · exact fun q x hfly => h.flying q x ((put_inFlight ht q x).mp hfly)
  · exact fun q x hfly => h.live q x ((put_inFlight ht q x).mp hfly)
  · intro x hpos hle
    obtain ⟨q, hfly⟩ | hrest := h.told x hpos hle
    · exact .inl ⟨q, (put_inFlight ht q x).mpr hfly⟩
    · exact .inr hrest

/-- What draining the `ADD` of the id does: its timer is in the wheel, or it was ended. -/
structure Settles (w w' : TimerWheel) (id : Nat) : Prop where
  raised : w'.maxAddedId = max w.maxAddedId id
  queue : w'.timerOperationsQueue = w.timerOperationsQueue
  others : ∀ x, x ≠ id → w'.timerMap x = w.timerMap x
  ended : w'.timerMap id ≠ none ∨ Spent w'.log id
  spent : ∀ x, Spent w.log x → Spent w'.log x
  marked : ∀ x, x ≠ id → Marked w x → Marked w' x
  marks : ∀ x, Marked w' x → Marked w x
  unheld : ∀ q, ¬ w.Holds q → (w.mem q).id ≠ id ∨ w'.timerMap id = none →
    ¬ w'.Holds q ∧ (w'.mem q).id = (w.mem q).id ∧ (w'.mem q).active = (w.mem q).active

theorem dispose_fields (w : TimerWheel) (p : Ptr) :
    (w.dispose p).mem = w.mem ∧ (w.dispose p).buckets = w.buckets ∧
      ∃ l, (w.dispose p).books = { w.books with log := l ++ w.log } := by
  unfold dispose
  cases (w.mem p).coro <;> cases (w.mem p).heap
  · exact ⟨rfl, rfl, [], rfl⟩
  · exact ⟨rfl, rfl, [_], rfl⟩
  · exact ⟨rfl, rfl, [_], rfl⟩
  · exact ⟨rfl, rfl, [_, _], rfl⟩

theorem SharedInv.drops (h : SharedInv s) {id : Nat} {w : TimerWheel} (hmem : w.mem = s.wheel.mem)
    (hb : w.buckets = s.wheel.buckets) {c d : Finset Nat} {l : List Event}
    (books : w.books = { s.wheel.books with
      maxAddedId := max s.wheel.maxAddedId id, cancelledPending := c, detachedPending := d,
      log := l ++ s.wheel.log })
    (hmark : Marked s.wheel id)
    (hmarked : ∀ x, x ≠ id → Marked s.wheel x → x ∈ c ∨ x ∈ d)
    (hmarks : ∀ x, x ∈ c ∨ x ∈ d → Marked s.wheel x) :
    Inv { w with timerIdCounter := w.maxAddedId } ∧ Settles s.wheel w id := by
  have hmap : w.timerMap = s.wheel.timerMap := congrArg Books.timerMap books
  have hmax : w.maxAddedId = max s.wheel.maxAddedId id := congrArg Books.maxAddedId books
  have hc : w.cancelledPending = c := congrArg Books.cancelledPending books
  have hd : w.detachedPending = d := congrArg Books.detachedPending books
  have hlog : w.log = l ++ s.wheel.log := congrArg Books.log books
  have hqueue : w.timerOperationsQueue = [] :=
    (congrArg Books.timerOperationsQueue books).trans h.empty
  have hspent : ∀ x, Spent s.wheel.log x → Spent w.log x := by
    intro x hx
    rw [hlog, spent_append]
    exact .inr hx
  constructor
  · refine h.wheel.of_same_wheel hb hmem hmap
      (congrArg Books.activeTimerCount books) ?_ le_rfl ?_ ?_
    · exact hmax.ge.trans' (le_max_left ..)
    · change addIds w.timerOperationsQueue = _
      rw [hqueue]
      simp [addIds]
    · intro q x hq
      change Op.add q x ∈ w.timerOperationsQueue at hq
      rw [hqueue] at hq
      exact absurd hq List.not_mem_nil
  · refine ⟨hmax, hqueue.trans h.empty.symm, fun x _ => by rw [hmap], .inr (hspent id (h.marks id hmark)), hspent, ?_, ?_,
      fun q hq _ => ⟨?_, by rw [hmem], by rw [hmem]⟩⟩
    · intro x hx hold
      rw [Marked, hc, hd]
      exact hmarked x hx hold
    · intro x hx
      rw [Marked, hc, hd] at hx
      exact hmarks x hx
    · unfold Holds at hq ⊢
      rw [hb]
      exact hq

theorem SharedInv.accepts (h : SharedInv s) {p : Ptr} {id : Nat} {rest : List Op}
    (head : s.queue = .add p id :: rest) (hmark : ¬ Marked s.wheel id) :
    Inv { (s.wheel.raiseMax id).accept p with
        timerIdCounter := ((s.wheel.raiseMax id).accept p).maxAddedId } ∧
      Settles s.wheel ((s.wheel.raiseMax id).accept p) id := by
  have hfly : s.InFlight p id := .inr (by rw [head]; exact List.mem_cons_self)
  obtain ⟨hpos, -, hfresh⟩ := h.flying p id hfly
  obtain ⟨hpid, hpact, hpnot⟩ := h.live p id hfly hmark
  obtain ⟨w, hw⟩ : ∃ w, w = (s.wheel.raiseMax id).accept p := ⟨_, rfl⟩
  have hmoved : Moved s.wheel w p (some (s.wheel.place (s.wheel.mem p).expiryTime)) fun t => t := by
    have hraised := accept_moved (w := s.wheel.raiseMax id) (p := p) h.wheel.linked hpnot
    rw [hw]
    exact ⟨hraised.linked, hraised.buckets, hraised.self, hraised.others, hraised.late⟩
  have hbooks : w.books = { s.wheel.books with
      maxAddedId := max s.wheel.maxAddedId id,
      timerMap := Function.update s.wheel.timerMap (s.wheel.mem p).id (some p),
      activeTimerCount := s.wheel.activeTimerCount + 1,
      log := .drained (s.wheel.mem p).id (s.wheel.mem p).expiryTime s.wheel.currentTime ::
        s.wheel.log } := by
    rw [hw, accept_books, raiseMax_books]
    rfl
  have hmap : w.timerMap = Function.update s.wheel.timerMap id (some p) := by
    rw [← hpid]
    exact congrArg Books.timerMap hbooks
  have hmax : w.maxAddedId = max s.wheel.maxAddedId id := congrArg Books.maxAddedId hbooks
  have hc : w.cancelledPending = s.wheel.cancelledPending :=
    congrArg Books.cancelledPending hbooks
  have hd : w.detachedPending = s.wheel.detachedPending := congrArg Books.detachedPending hbooks
  have hlog : w.log = _ :: s.wheel.log := congrArg Books.log hbooks
  rw [← hw]
  constructor
  · have hbooks' : { w with timerIdCounter := w.maxAddedId }.books = { s.wheel.books with
        timerIdCounter := w.maxAddedId, maxAddedId := max s.wheel.maxAddedId id,
        timerMap := Function.update s.wheel.timerMap (s.wheel.mem p).id (some p),
        activeTimerCount := s.wheel.activeTimerCount + 1,
        log := .drained (s.wheel.mem p).id (s.wheel.mem p).expiryTime s.wheel.currentTime ::
          s.wheel.log } :=
      congrArg (fun b : Books => { b with timerIdCounter := w.maxAddedId }) hbooks
    refine h.wheel.put_in hpid hpact hpos hfresh
      ⟨hmoved.linked, hmoved.buckets, hmoved.self, hmoved.others, hmoved.late⟩
      (q := s.wheel.timerOperationsQueue) (n := w.maxAddedId) hbooks'
      (le_max_left ..) (le_max_right ..) hmax.ge ?_ ?_
    · rw [h.empty, hmax, Nat.sub_self]
      rfl
    · rw [h.empty]
      exact fun q x hq => absurd hq List.not_mem_nil
  · refine ⟨hmax, congrArg Books.timerOperationsQueue hbooks, fun x hx => ?_, .inl ?_, fun x hx => ?_, fun x _ hx => ?_, fun x hx => ?_,
      fun q hq hne => ?_⟩
    · rw [hmap, Function.update_of_ne hx]
    · rw [hmap, Function.update_self]
      exact Option.some_ne_none p
    · rw [hlog, spent_cons]
      exact .inr hx
    · rw [Marked, hc, hd]
      exact hx
    · rw [Marked, hc, hd] at hx
      exact hx
    · have hqp : q ≠ p := by
        rintro rfl
        obtain hne | hnone := hne
        · exact hne hpid
        · rw [hmap, Function.update_self] at hnone
          cases hnone
      have hsame := hmoved.others q hqp
      refine ⟨?_, Timer.id_of_unplaced hsame, Timer.active_of_unplaced hsame⟩
      rw [hmoved.holds_iff]
      simp [hq, hqp]

theorem SharedInv.applyAdd (h : SharedInv s) {p : Ptr} {id : Nat} {rest : List Op}
    (head : s.queue = .add p id :: rest) :
    Inv { s.wheel.applyAdd p id with timerIdCounter := (s.wheel.applyAdd p id).maxAddedId } ∧
      Settles s.wheel (s.wheel.applyAdd p id) id := by
  unfold TimerWheel.applyAdd
  by_cases hdet : id ∈ s.wheel.detachedPending
  · rw [if_pos (show id ∈ (s.wheel.raiseMax id).detachedPending from hdet)]
    refine h.drops rfl rfl (c := s.wheel.cancelledPending)
      (d := s.wheel.detachedPending.erase id) (l := []) ?_ (.inr hdet) ?_ ?_
    · rw [← raiseMax_maxAddedId]
      rfl
    · exact fun x hx hold => hold.imp_right fun hin => Finset.mem_erase.mpr ⟨hx, hin⟩
    · exact fun x hx => hx.imp_right Finset.mem_of_mem_erase
  rw [if_neg (show id ∉ (s.wheel.raiseMax id).detachedPending from hdet)]
  by_cases hcan : id ∈ s.wheel.cancelledPending
  · rw [if_pos (show id ∈ (s.wheel.raiseMax id).cancelledPending from hcan)]
    obtain ⟨w, hw⟩ : ∃ w, w = { s.wheel.raiseMax id with
        cancelledPending := (s.wheel.raiseMax id).cancelledPending.erase id } := ⟨_, rfl⟩
    obtain ⟨hmem, hb, l, hbooks⟩ := dispose_fields w p
    rw [← hw]
    refine h.drops (hmem.trans ?_) (hb.trans ?_) (c := s.wheel.cancelledPending.erase id)
      (d := s.wheel.detachedPending) (l := l) ?_ (.inl hcan) ?_ ?_
    · rw [hw]; rfl
    · rw [hw]; rfl
    · rw [hbooks, hw, ← raiseMax_maxAddedId]
      rfl
    · exact fun x hx hold => hold.imp_left fun hin => Finset.mem_erase.mpr ⟨hx, hin⟩
    · exact fun x hx => hx.imp_left Finset.mem_of_mem_erase
  rw [if_neg (show id ∉ (s.wheel.raiseMax id).cancelledPending from hcan)]
  exact h.accepts head fun hmark => hmark.elim hcan hdet

theorem SharedInv.drainAdd (h : SharedInv s) (clock : Clock) {p : Ptr} {id : Nat}
    {rest : List Op} (head : s.queue = .add p id :: rest) :
    SharedInv (s.drain clock (.add p id) rest) := by
  obtain ⟨hinv, hset⟩ := h.applyAdd head
  have hids : addIds s.queue = id :: addIds rest := by rw [head]; rfl
  have honce := h.once
  rw [hids, List.nodup_cons] at honce
  have hqueued : ∀ q x, Op.add q x ∈ rest → Op.add q x ∈ s.queue := by
    intro q x hq
    rw [head]
    exact List.mem_cons_of_mem _ hq
  have hin : s.InFlight p id := .inr (by rw [head]; exact List.mem_cons_self)
  -- the `ADD` was the only one with its id
  have hflight : ∀ q x, (s.drain clock (.add p id) rest).InFlight q x →
      x ≠ id ∧ s.InFlight q x := by
    rintro q x (⟨t, ht⟩ | hq)
    · refine ⟨?_, .inl ⟨t, ht⟩⟩
      rintro rfl
      exact h.apart t q x ht (by rw [hids]; exact List.mem_cons_self)
    · refine ⟨?_, .inr (hqueued q x hq)⟩
      rintro rfl
      exact honce.1 (mem_addIds hq)
  refine ⟨hinv, hset.queue.trans h.empty, rfl, ?_, honce.2, ?_, h.alone, ?_, ?_, ?_, ?_⟩
  · change (s.wheel.applyAdd p id).maxAddedId ≤ _
    rw [hset.raised]
    exact max_le h.drawn  (h.flying p id hin).2.1
  · intro t q x ht hx
    exact h.apart t q x ht (by rw [hids]; exact List.mem_cons_of_mem _ hx)
  · intro q x hfly
    obtain ⟨hne, hfly⟩ := hflight q x hfly
    obtain ⟨hpos, hle, hnone⟩ := h.flying q x hfly
    exact ⟨hpos, hle, (hset.others x hne).trans hnone⟩
  · intro q x hfly hmark
    obtain ⟨hne, hfly⟩ := hflight q x hfly
    obtain ⟨hid, hact, hnot⟩ := h.live q x hfly fun hold => hmark (hset.marked x hne hold)
    obtain ⟨hnot', hid', hact'⟩ := hset.unheld q hnot (.inl (by rw [hid]; exact hne))
    exact ⟨hid'.trans hid, hact'.trans hact, hnot'⟩
  · intro x hpos hle
    by_cases hx : x = id
    · rw [hx]
      exact .inr hset.ended
    obtain ⟨q, ⟨t, ht⟩ | hq⟩ | hmap | hspent := h.told x hpos hle
    · exact .inl ⟨q, .inl ⟨t, ht⟩⟩
    · rw [head, List.mem_cons, Op.add.injEq] at hq
      obtain ⟨-, hxid⟩ | hq := hq
      · exact absurd hxid hx
      · exact .inl ⟨q, .inr hq⟩
    · refine .inr (.inl ?_)
      change (s.wheel.applyAdd p id).timerMap x ≠ none
      rw [hset.others x hx]
      exact hmap
    · exact .inr (.inr (hset.spent x hspent))
  · exact fun x hx => hset.spent x (h.marks x (hset.marks x hx))

theorem SharedInv.applyRemove_effects (h : SharedInv s) (id : Nat) (done : Option (Nat × Nat)) :
    Effects .any s.wheel ((s.wheel.applyRemove id).applyDone id done) := by
  obtain ⟨w, hw⟩ : ∃ w, w = s.wheel.enqueueOp (.remove id done) := ⟨_, rfl⟩
  have hqueue : w.timerOperationsQueue = [.remove id done] := by
    rw [hw]
    exact congrArg (· ++ [Op.remove id done]) h.empty
  have hback : { w with timerOperationsQueue := [] } = s.wheel := by
    calc { w with timerOperationsQueue := [] }
        = { s.wheel with timerOperationsQueue := [] } := by rw [hw]; rfl
      _ = { s.wheel with timerOperationsQueue := s.wheel.timerOperationsQueue } := by rw [h.empty]
      _ = s.wheel := rfl
  have hsend : Effect .any s.wheel w := by
    rw [hw]
    exact .remove id done trivial ⟨rfl, rfl, rfl, rfl, fun _ => rfl⟩ rfl
  have hremove : Effects .any w _ := Timers.applyRemove_effects (h.wheel.effect hsend) hqueue
  rw [hback] at hremove
  exact (ReflTransGen.single hsend).trans hremove

theorem SharedInv.pop (h : SharedInv s) {op : Op} {rest : List Op} (head : s.queue = op :: rest)
    (other : ∀ p id, op ≠ .add p id) {w : TimerWheel} (heffs : Effects .any s.wheel w)
    (hsame : SameQueue s.wheel w) :
    SharedInv { s with wheel := { w with timerIdCounter := w.maxAddedId }, queue := rest } := by
  have hleaves : Leaves s.wheel w := .of_effects h.wheel h.follows heffs hsame.counter
  have hfollows : w.timerIdCounter = w.maxAddedId :=
    hsame.counter.trans (h.follows.trans hleaves.max.symm)
  have hdone : { w with timerIdCounter := w.maxAddedId } = w :=
    congrArg (fun n => { w with timerIdCounter := n }) hfollows.symm
  rw [hdone]
  refine h.of_leaves (h.wheel.effects heffs) hleaves hsame (m := s.mutex) ?_ fun p id => ?_
  · rw [head, addIds_cons_of_ne_add other]
  · rw [head, List.mem_cons]
    exact (or_iff_right fun heq => other p id heq.symm).symm

theorem SharedInv.drain (h : SharedInv s) (clock : Clock) {op : Op} {rest : List Op}
    (head : s.queue = op :: rest) : SharedInv (s.drain clock op rest) := by
  cases op with
  | add p id => exact h.drainAdd clock head
  | update id newDur =>
      exact h.pop head (by simp) (applyUpdate_effects clock h.wheel newDur)
        (.of_silent (silent_applyUpdate ..))
  | remove id done =>
      exact h.pop head (by simp) (h.applyRemove_effects id done) (.of_silent (silent_applyRemove ..))

theorem SharedInv.step {clock : Clock} {s' : SharedWheel} (h : SharedInv s)
    (hstep : SharedStep clock s s') : SharedInv s' := by
  cases hstep with
  | take t p timer expiry hidle ok => exact h.take hidle ok
  | put t p id ht => exact h.put ht
  | updateTimer id newDur => exact h.enqueue (by simp)
  | removeTimer id done => exact h.enqueue (by simp)
  | cancelTimer id =>
      have heffs : Effects .any s.wheel (s.wheel.cancelTimer id).2 := cancelTimer_effects h.wheel trivial
      exact h.of_effects heffs (.of_silent (silent_cancelTimer ..)) rfl fun _ _ => Iff.rfl
  | cancelTimerDetach id =>
      have heffs : Effects .any s.wheel (s.wheel.cancelTimerDetach id).2 := cancelTimerDetach_effects h.wheel trivial
      exact h.of_effects heffs (.of_silent (silent_cancelTimerDetach ..)) rfl fun _ _ => Iff.rfl
  | lock => exact h.of_leaves h.wheel (.refl _) (.refl _) rfl fun _ _ => Iff.rfl
  | drain op rest hmutex head => exact h.drain clock head
  | drained => exact h.of_leaves h.wheel (.refl _) (.refl _) rfl fun _ _ => Iff.rfl
  | advance fuel w hmutex hrun =>
      have heffs : Effects .any s.wheel w := tick_effects trivial clock h.wheel hrun
      exact h.of_effects heffs (sameQueue_tick h.empty hrun) rfl fun _ _ => Iff.rfl

end Steps

theorem sharedInv_of_runs {clock : Clock} {s : SharedWheel} (h : SharedRuns clock s) :
    SharedInv s := by
  induction h with
  | start => exact sharedInv_new clock
  | step _ hstep ih => exact ih.step hstep

theorem OrderedRuns.runs {clock : Clock} {s : SharedWheel} (h : OrderedRuns clock s) :
    SharedRuns clock s := by
  induction h with
  | start => exact .start
  | step _ hstep _ ih => exact ih.step hstep

/-- A step that does not let the mutex go behind a `tick`. -/
theorem OrderedRuns.quiet {clock : Clock} {s s' : SharedWheel} (hs : OrderedRuns clock s)
    (h : SharedStep clock s s') (hmutex : s.mutex ≠ .advancing) : OrderedRuns clock s' :=
  hs.step h fun hadvancing => absurd hadvancing hmutex

/-! ## What the cancels report -/

def SharedWheel.Completed (s : SharedWheel) (id : Nat) : Prop :=
  0 < id ∧ id ≤ s.counter ∧ ∀ t p, s.adding t ≠ some (p, id)

/-- A timer that cannot be cancelled fired, was removed or was cancelled, and every timer
whose `ADD` is queued and that none of this happened to can be cancelled. -/
structure SharedWheel.Truthful (s : SharedWheel) : Prop where
  refused : ∀ id, s.Completed id →
    (s.wheel.cancelTimer id).1 = false ∨ (s.wheel.cancelTimerDetach id).1 = false →
    Spent s.wheel.log id
  queued : ∀ p id, Op.add p id ∈ s.queue → ¬ Spent s.wheel.log id →
    (s.wheel.cancelTimer id).1 = true ∧ (s.wheel.cancelTimerDetach id).1 = true

section Cancels

variable {clock : Clock} {s s' : SharedWheel}

theorem SharedWheel.Ordered.of_leaves (hordered : s.Ordered) (hleaves : Leaves s.wheel s'.wheel)
    (hfly : ∀ p id, s'.InFlight p id → s.InFlight p id) : s'.Ordered := by
  intro p id hin hmark
  rw [hleaves.max]
  exact hordered p id (hfly p id hin) (mt (hleaves.marked id) hmark)

/-- Only draining upsets the order: the new ids are greater than all before. -/
theorem SharedWheel.Ordered.step (h : SharedInv s) (hordered : s.Ordered)
    (hstep : SharedStep clock s s') (hmutex : s.mutex ≠ .draining) : s'.Ordered := by
  have heffs : ∀ {w : TimerWheel} {m : Mutex}, Effects .any s.wheel w → SameQueue s.wheel w →
      SharedWheel.Ordered { s with wheel := w, mutex := m } :=
    fun heffs hsame => hordered.of_leaves
      (.of_effects h.wheel h.follows heffs hsame.counter) fun _ _ hin => hin
  cases hstep with
  | take t p timer expiry =>
      intro q id hin hmark
      obtain ⟨rfl, rfl⟩ | hin := take_inFlight hin
      · exact Nat.lt_succ_of_le h.drawn
      · exact hordered q id hin hmark
  | put t p id ht =>
      exact hordered.of_leaves (.refl _) fun q x hin => (put_inFlight ht q x).mp hin
  | updateTimer id newDur =>
      exact hordered.of_leaves (.refl _) fun q x hin => (enqueue_inFlight (by simp) q x).mp hin
  | removeTimer id done =>
      exact hordered.of_leaves (.refl _) fun q x hin => (enqueue_inFlight (by simp) q x).mp hin
  | cancelTimer id =>
      exact heffs (cancelTimer_effects h.wheel trivial) (.of_silent (silent_cancelTimer ..))
  | cancelTimerDetach id =>
      exact heffs (cancelTimerDetach_effects h.wheel trivial) (.of_silent (silent_cancelTimerDetach ..))
  | lock => exact hordered
  | drain op rest hdraining => exact absurd hdraining hmutex
  | drained hdraining => exact absurd hdraining hmutex
  | advance fuel w _ hrun =>
      exact heffs (tick_effects trivial clock h.wheel hrun) (sameQueue_tick h.empty hrun)

theorem OrderedRuns.ordered (h : OrderedRuns clock s) (hfree : s.mutex = .free) : s.Ordered := by
  induction h with
  | start =>
      rintro p id (⟨t, ht⟩ | hq)
      · cases ht
      · cases hq
  | @step s s' hs hstep hordered ih =>
      have hinv := sharedInv_of_runs hs.runs
      cases hm : s.mutex with
      | free => exact (ih hm).step hinv hstep (by rw [hm]; simp)
      | advancing => exact (hordered hm hfree).step hinv hstep (by rw [hm]; simp)
      | draining =>
          -- the mutex is not let go here
          cases hstep <;> simp_all [SharedWheel.take, SharedWheel.put, SharedWheel.enqueue,
            SharedWheel.drain]

/-- A refused id is not in the wheel, and is not greater than the greatest drained one. -/
theorem Inv.refused {w : TimerWheel} (h : Inv w) {id : Nat} (hpos : 0 < id)
    (hrefused : (w.cancelTimer id).1 = false ∨ (w.cancelTimerDetach id).1 = false) :
    w.timerMap id = none ∧ id ≤ w.maxAddedId := by
  cases hmap : w.timerMap id with
  | none =>
      refine ⟨rfl, ?_⟩
      by_contra hnew
      unfold cancelTimer cancelTimerDetach at hrefused
      simp [hpos.ne', hmap, Nat.lt_of_not_le hnew] at hrefused
  | some p =>
      obtain ⟨-, hholds⟩ := h.held id p hmap
      have hactive := (h.known p hholds).1
      unfold cancelTimer cancelTimerDetach at hrefused
      simp [hpos.ne', hmap, hactive] at hrefused

theorem SharedInv.truthful (h : SharedInv s) (hordered : s.Ordered) : s.Truthful := by
  have hlate : ∀ id, 0 < id → (∃ p, s.InFlight p id) →
      (s.wheel.cancelTimer id).1 = false ∨ (s.wheel.cancelTimerDetach id).1 = false →
      Spent s.wheel.log id := by
    rintro id hpos ⟨p, hin⟩ hrefused
    obtain ⟨-, hle⟩ := h.wheel.refused hpos hrefused
    by_cases hmark : Marked s.wheel id
    · exact h.marks id hmark
    · have := hordered p id hin hmark
      omega
  constructor
  · rintro id ⟨hpos, hle, -⟩ hrefused
    obtain hin | hmap | hspent := h.told id hpos hle
    · exact hlate id hpos hin hrefused
    · exact absurd (h.wheel.refused hpos hrefused).1 hmap
    · exact hspent
  · intro p id hq hspent
    have hin : s.InFlight p id := .inr hq
    have hpos := (h.flying p id hin).1
    have hnot := mt (hlate id hpos ⟨p, hin⟩) hspent
    rw [not_or, Bool.not_eq_false, Bool.not_eq_false] at hnot
    exact hnot

end Cancels

/-! ## Two short runs -/

namespace SharedWheel

/-- A `tick` that drains one operation. -/
def tickOne (clock : Clock) (s : SharedWheel) (op : Op) : SharedWheel :=
  let s := s.drain clock op []
  { s with wheel := (s.wheel.tick clock 1).getD s.wheel, mutex := .free }

/-- Two threads take their ids; the second one, with id 2, enqueues first, and a `tick` comes. -/
def overtaking : SharedWheel :=
  (((SharedWheel.new shortClock).take 0 0 shortTimer 2).take 1 1 shortTimer 2).put 1 1 2

def overtaken : SharedWheel := (overtaking.tickOne shortClock (.add 1 2)).put 0 0 1

/-- One thread adds a timer, and a `tick` drains the `ADD`. -/
def oneAdded : SharedWheel := ((SharedWheel.new shortClock).take 0 0 shortTimer 2).put 0 0 1

def oneDrained : SharedWheel := oneAdded.tickOne shortClock (.add 0 1)

end SharedWheel

open SharedWheel

theorem mayAdd_new (p : Ptr) : (SharedWheel.new shortClock).MayAdd p shortTimer := by
  refine ⟨rfl, fun id h => ?_, ?_⟩
  · cases h
  · rintro id (⟨t, ht⟩ | hq)
    · cases ht
    · cases hq

theorem oneAdded_adding (t : Nat) : oneAdded.adding t = none := by
  cases ht : oneAdded.adding t with
  | none => rfl
  | some pair =>
      obtain ⟨p, id⟩ := pair
      obtain ⟨hne, ht⟩ := put_adding ht
      obtain ⟨heq, -⟩ | ⟨-, ht⟩ := take_adding ht
      · exact absurd heq hne
      · cases ht

theorem oneDrained_runs : OrderedRuns shortClock oneDrained := by
  have htaken : OrderedRuns shortClock ((SharedWheel.new shortClock).take 0 0 shortTimer 2) :=
    OrderedRuns.start.quiet (.take 0 0 shortTimer 2 rfl (mayAdd_new 0)) (by decide)
  have hadded : OrderedRuns shortClock oneAdded := htaken.quiet (.put 0 0 1 rfl) (by decide)
  have hsome : ((oneAdded.drain shortClock (.add 0 1) []).wheel.tick shortClock 1).isSome = true :=
    by decide
  obtain ⟨w, hw⟩ := Option.isSome_iff_exists.mp hsome
  have hlock : OrderedRuns shortClock { oneAdded with mutex := .draining } :=
    hadded.quiet (.lock rfl) (by decide)
  have hdrain := hlock.quiet (.drain (.add 0 1) [] rfl rfl) (by decide)
  have hdrained := hdrain.quiet (.drained rfl rfl) (by decide)
  have hempty : ∀ p id, ¬ InFlight { oneAdded.drain shortClock (.add 0 1) [] with
      mutex := .advancing } p id := by
    rintro p id (⟨t, ht⟩ | hq)
    · exact absurd ((oneAdded_adding t).symm.trans ht) (by simp)
    · cases hq
  have hadvance := hdrained.step (.advance 1 w rfl hw) fun _ _ p id hin => absurd hin (hempty p id)
  have hlast : oneDrained =
      { oneAdded.drain shortClock (.add 0 1) [] with wheel := w, mutex := .free } := by
    dsimp only [oneDrained, tickOne]
    rw [hw, Option.getD_some]
  rw [hlast]
  exact hadvance

theorem overtaking_runs : SharedRuns shortClock overtaking := by
  have hfirst : SharedRuns shortClock ((SharedWheel.new shortClock).take 0 0 shortTimer 2) :=
    SharedRuns.start.step (.take 0 0 shortTimer 2 rfl (mayAdd_new 0))
  have hmay : ((SharedWheel.new shortClock).take 0 0 shortTimer 2).MayAdd 1 shortTimer := by
    refine ⟨rfl, fun id h => ?_, fun id hin => ?_⟩
    · cases h
    · obtain ⟨hp, -⟩ | hin := take_inFlight hin
      · cases hp
      · exact (mayAdd_new 1).queued id hin
  exact (hfirst.step (.take 1 1 shortTimer 2 rfl hmay)).step (.put 1 1 2 rfl)

theorem tickOne_runs {clock : Clock} {s : SharedWheel} {op : Op} (hs : SharedRuns clock s)
    (hfree : s.mutex = .free) (hqueue : s.queue = [op])
    (hrun : ((s.drain clock op []).wheel.tick clock 1).isSome = true) :
    SharedRuns clock (s.tickOne clock op) := by
  obtain ⟨w, hw⟩ := Option.isSome_iff_exists.mp hrun
  have hlock : SharedRuns clock { s with mutex := .draining } := hs.step (.lock hfree)
  have hdrain := hlock.step (.drain op [] rfl hqueue)
  have hdrained := hdrain.step (.drained rfl rfl)
  have hadvance := hdrained.step (.advance 1 w rfl hw)
  have hlast : s.tickOne clock op = { s.drain clock op [] with wheel := w, mutex := .free } := by
    dsimp only [tickOne]
    rw [hw]
    rfl
  rw [hlast]
  exact hadvance

/-- The `ADD` with id 1 comes after the `tick` that drained id 2, and a cancel takes the timer
for gone. -/
theorem overtaken_not_truthful :
    ¬ ∀ clock s, SharedRuns clock s → s.mutex = .free → s.Truthful := by
  intro hall
  have hruns : SharedRuns shortClock overtaken :=
    (tickOne_runs overtaking_runs rfl rfl (by decide)).step (.put 0 0 1 rfl)
  have htrue := (hall shortClock overtaken hruns rfl).queued 0 1 (by decide) ?_
  · exact absurd htrue.1 (by decide)
  · rintro ⟨e, he, hends⟩
    have hlog : overtaken.wheel.log = [.drained 2 2 0, .added 2 1 (.raw 7 9),
        .added 1 0 (.raw 7 9)] := by decide
    rw [hlog] at he
    simp at he
    obtain rfl | rfl | rfl := he <;> simp [Event.Ends] at hends

/-- In the runs in which no `tick` leaves an `ADD` behind with an id that the cancels take for
drained, the cancels tell the truth. -/
theorem truthful_of_orderedRuns {clock : Clock} {s : SharedWheel} (h : OrderedRuns clock s)
    (hfree : s.mutex = .free) : s.Truthful :=
  (sharedInv_of_runs h.runs).truthful (h.ordered hfree)

theorem oneDrained_truthful : oneDrained.Completed 1 ∧ oneDrained.Truthful := by
  refine ⟨⟨by decide, by decide, fun t p ht => ?_⟩, truthful_of_orderedRuns oneDrained_runs rfl⟩
  have hnone : oneDrained.adding t = none := oneAdded_adding t
  rw [hnone] at ht
  cases ht

end Uvent.Timers
