import Uvent.Timers.Runs

/-!
# Timers the wheel has given up

A detach, a cancel of an embedded timer and the callback of a `REMOVE` tell the
client that the wheel is done with the Timer object.  What may still point to it
then is a queued `ADD`.  A detached `ADD` is dropped without a look at the
object; a cancelled one is not, since a heap timer is still to be deleted.
-/

namespace Uvent.Timers

open TimerWheel

/-- Every `REMOVE` names an id that `addTimer` returned before. -/
def Policy.promised : Policy where
  cancel _ _ := True
  detach _ _ := True
  remove w id := id ≤ w.timerIdCounter
  advancing := True

/-- The `ADD` of the id is not drained yet and not detached, and its timer is
embedded, or not even added. -/
def EmbeddedInQueue (w : TimerWheel) (id : Nat) : Prop :=
  w.maxAddedId < id ∧ id ∉ w.detachedPending ∧ (w.embedded id = true ∨ w.timerIdCounter < id)

/-- No `cancelTimer` of an embedded timer while its `ADD` is queued. -/
def Policy.drained : Policy :=
  { Policy.promised with cancel := fun w id => ¬EmbeddedInQueue w id }

/-- Each queued `REMOVE` finds the `ADD` of its id drained, with `n` the largest
id drained so far. -/
def RemovesFollow : Nat → List Op → Prop
  | _, [] => True
  | n, .add _ _ :: ops => RemovesFollow (n + 1) ops
  | n, .update _ _ :: ops => RemovesFollow n ops
  | n, .remove id _ :: ops => id ≤ n ∧ RemovesFollow n ops

theorem removesFollow_append {ops ops' : List Op} {n : Nat} :
    RemovesFollow n (ops ++ ops') ↔
      RemovesFollow n ops ∧ RemovesFollow (n + (addIds ops).length) ops' := by
  induction ops generalizing n with
  | nil => simp [RemovesFollow, addIds]
  | cons op ops ih =>
      cases op with
      | add p id =>
          rw [List.cons_append, RemovesFollow, RemovesFollow, ih, addIds_add, List.length_cons,
            show n + ((addIds ops).length + 1) = n + 1 + (addIds ops).length by omega]
      | update id newDur =>
          rw [List.cons_append, RemovesFollow, RemovesFollow, ih, addIds_cons_of_ne_add (by simp)]
      | remove id done =>
          rw [List.cons_append, RemovesFollow, RemovesFollow, ih, addIds_cons_of_ne_add (by simp),
            and_assoc]

theorem RemovesFollow.tail {op : Op} {ops : List Op} {n : Nat} (other : ∀ p id, op ≠ .add p id)
    (h : RemovesFollow n (op :: ops)) : RemovesFollow n ops := by
  cases op with
  | add p id => exact absurd rfl (other p id)
  | update id newDur => exact h
  | remove id done => exact h.2

/-- Nothing in the wheel leads to a timer that was given up, except `ADD`s that
are dropped unread. -/
structure Forgotten (w : TimerWheel) : Prop where
  free : ∀ p ∈ w.released, ¬w.Holds p ∧
    ∀ id, Op.add p id ∈ w.timerOperationsQueue → id ∈ w.detachedPending
  kept : ∀ p id, Op.add p id ∈ w.timerOperationsQueue → id ∈ w.cancelledPending →
    id ∉ w.detachedPending → (w.mem p).heap = true ∧ (w.mem p).id = id
  addedAs : ∀ p id, Op.add p id ∈ w.timerOperationsQueue → w.addedAs id = some p
  known : ∀ id ∈ w.cancelledPending, id ∉ w.detachedPending → id ≤ w.timerIdCounter
  removes : RemovesFollow w.maxAddedId w.timerOperationsQueue
  late : w.lateAccess = []

section Forgotten

variable {w w' : TimerWheel} {p : Ptr} {id : Nat}

theorem Forgotten.held_not_released (h : Forgotten w) : ∀ q, w.Holds q → q ∉ w.released :=
  fun q hq hin => (h.free q hin).1 hq

/-- The `ADD` of a timer that was given up is detached. -/
theorem Forgotten.not_released_of_head (h : Forgotten w) {rest : List Op}
    (head : w.timerOperationsQueue = .add p id :: rest) (attached : id ∉ w.detachedPending) :
    p ∉ w.released :=
  fun hin => attached ((h.free p hin).2 id (by rw [head]; exact List.mem_cons_self))

theorem Moved.heap_eq {target : Option (Nat × Nat)} {f : Timer → Timer}
    (moved : Moved w w' p target f) (hf : ∀ t, (f t).heap = t.heap) (q : Ptr) :
    (w'.mem q).heap = (w.mem q).heap := by
  by_cases hq : q = p
  · subst hq
    exact (Timer.heap_of_unplaced moved.self).trans (hf _)
  · exact Timer.heap_of_unplaced (moved.others q hq)

theorem Moved.id_eq {target : Option (Nat × Nat)} {f : Timer → Timer}
    (moved : Moved w w' p target f) (hf : ∀ t, (f t).id = t.id) (q : Ptr) :
    (w'.mem q).id = (w.mem q).id := by
  by_cases hq : q = p
  · subst hq
    exact (Timer.id_of_unplaced moved.self).trans (hf _)
  · exact Timer.id_of_unplaced (moved.others q hq)

/-- Nothing is given up or marked; `ADD`s may leave the queue and timers may
move, but no timer that was given up goes in. -/
theorem Forgotten.of_same (h : Forgotten w) (hreleased : w'.released = w.released)
    (hholds : ∀ q, w'.Holds q → w.Holds q ∨ q ∉ w.released)
    (hheap : ∀ q, (w'.mem q).heap = (w.mem q).heap) (hid : ∀ q, (w'.mem q).id = (w.mem q).id)
    (haddedAs : w'.addedAs = w.addedAs)
    (hqueue : ∀ q x, Op.add q x ∈ w'.timerOperationsQueue →
      Op.add q x ∈ w.timerOperationsQueue ∧ (x ∈ w'.cancelledPending → x ∈ w.cancelledPending) ∧
        (x ∈ w'.detachedPending ↔ x ∈ w.detachedPending))
    (hknown : ∀ x ∈ w'.cancelledPending, x ∉ w'.detachedPending → x ≤ w'.timerIdCounter)
    (hremoves : RemovesFollow w'.maxAddedId w'.timerOperationsQueue)
    (hlate : w'.lateAccess = w.lateAccess) : Forgotten w' := by
  refine ⟨?_, ?_, ?_, hknown, hremoves, hlate.trans h.late⟩
  · intro q hq
    rw [hreleased] at hq
    obtain ⟨hnot, hall⟩ := h.free q hq
    refine ⟨?_, ?_⟩
    · intro hin
      rcases hholds q hin with hold | hnew
      · exact hnot hold
      · exact hnew hq
    · intro x hx
      obtain ⟨hold, -, hdet⟩ := hqueue q x hx
      exact hdet.mpr (hall x hold)
  · intro q x hx hc hd
    obtain ⟨hold, hcan, hdet⟩ := hqueue q x hx
    rw [hheap, hid]
    exact h.kept q x hold (hcan hc) fun hin => hd (hdet.mpr hin)
  · intro q x hx
    rw [haddedAs]
    exact h.addedAs q x (hqueue q x hx).1

theorem Forgotten.of_queue (h : Forgotten w) (hb : w'.buckets = w.buckets) (hm : w'.mem = w.mem)
    {q : List Op} {l : List Event} {time : Nat}
    (books : w'.books = { w.books with timerOperationsQueue := q, log := l, currentTime := time })
    (hadds : ∀ p id, Op.add p id ∈ q → Op.add p id ∈ w.timerOperationsQueue)
    (hremoves : RemovesFollow w.maxAddedId q) (hlate : w'.lateAccess = w.lateAccess) :
    Forgotten w' := by
  have hqueue : w'.timerOperationsQueue = q := congrArg Books.timerOperationsQueue books
  have hmax : w'.maxAddedId = w.maxAddedId := congrArg Books.maxAddedId books
  have hctr : w'.timerIdCounter = w.timerIdCounter := congrArg Books.timerIdCounter books
  have hc : w'.cancelledPending = w.cancelledPending := congrArg Books.cancelledPending books
  have hd : w'.detachedPending = w.detachedPending := congrArg Books.detachedPending books
  have hholds : ∀ q, w'.Holds q → w.Holds q := by
    intro q hq
    unfold Holds
    rw [← hb]
    exact hq
  refine h.of_same (congrArg Books.released books) (fun q hq => .inl (hholds q hq)) ?_ ?_
    (congrArg Books.addedAs books) ?_ ?_ ?_ hlate
  · intro q
    rw [hm]
  · intro q
    rw [hm]
  · intro q x hx
    rw [hqueue] at hx
    rw [hc, hd]
    exact ⟨hadds q x hx, fun hin => hin, Iff.rfl⟩
  · rw [hc, hd, hctr]
    exact h.known
  · rw [hmax, hqueue]
    exact hremoves

/-- The `ADD` at the head of the queue is drained. -/
theorem Forgotten.of_drain (hf : Forgotten w) (h : Inv w) {rest : List Op} {c d : Finset Nat}
    {m : Nat → Option Ptr} {k : Nat} {l : List Event}
    (head : w.timerOperationsQueue = .add p id :: rest)
    (hholds : ∀ q, w'.Holds q → w.Holds q ∨ q ∉ w.released)
    (hheap : ∀ q, (w'.mem q).heap = (w.mem q).heap) (hid : ∀ q, (w'.mem q).id = (w.mem q).id)
    (hc : c ⊆ w.cancelledPending) (hd : ∀ x, x ≠ id → (x ∈ d ↔ x ∈ w.detachedPending))
    (books : w'.books = { w.books with
      timerOperationsQueue := rest, maxAddedId := max w.maxAddedId id, cancelledPending := c,
      detachedPending := d, timerMap := m, activeTimerCount := k, log := l })
    (hlate : w'.lateAccess = w.lateAccess) : Forgotten w' := by
  obtain ⟨hmaxId, hle, hrest⟩ := h.head_id head
  have hqueue : w'.timerOperationsQueue = rest := congrArg Books.timerOperationsQueue books
  have hmax : w'.maxAddedId = max w.maxAddedId id := congrArg Books.maxAddedId books
  have hctr : w'.timerIdCounter = w.timerIdCounter := congrArg Books.timerIdCounter books
  have hcw : w'.cancelledPending = c := congrArg Books.cancelledPending books
  have hdw : w'.detachedPending = d := congrArg Books.detachedPending books
  refine hf.of_same (congrArg Books.released books) hholds hheap hid
    (congrArg Books.addedAs books) ?_ ?_ ?_ hlate
  · intro q x hx
    rw [hqueue] at hx
    have hne : x ≠ id := by
      have hmem := mem_addIds hx
      rw [hrest, List.mem_range'_1] at hmem
      omega
    rw [hcw, hdw, head]
    exact ⟨List.mem_cons_of_mem _ hx, fun hin => hc hin, hd x hne⟩
  · intro x hxc hxd
    rw [hcw] at hxc
    rw [hdw] at hxd
    rw [hctr]
    by_cases hxid : x = id
    · omega
    · exact hf.known x (hc hxc) fun hin => hxd ((hd x hxid).mpr hin)
  · have hremoves := hf.removes
    rw [head] at hremoves
    rw [hmax, hqueue, show max w.maxAddedId id = w.maxAddedId + 1 by omega]
    exact hremoves

theorem Forgotten.of_moved (hf : Forgotten w) {target : Option (Nat × Nat)} {f : Timer → Timer}
    (moved : Moved w w' p target f) (hp : w.Holds p) (hheap : ∀ t, (f t).heap = t.heap)
    (hid : ∀ t, (f t).id = t.id) {m : Nat → Option Ptr} {k : Nat} {l : List Event}
    (books : w'.books = { w.books with timerMap := m, activeTimerCount := k, log := l }) :
    Forgotten w' := by
  have hqueue : w'.timerOperationsQueue = w.timerOperationsQueue :=
    congrArg Books.timerOperationsQueue books
  have hmax : w'.maxAddedId = w.maxAddedId := congrArg Books.maxAddedId books
  have hctr : w'.timerIdCounter = w.timerIdCounter := congrArg Books.timerIdCounter books
  have hc : w'.cancelledPending = w.cancelledPending := congrArg Books.cancelledPending books
  have hd : w'.detachedPending = w.detachedPending := congrArg Books.detachedPending books
  have hlate : w'.lateAccess = w.lateAccess :=
    moved.late hf.held_not_released (hf.held_not_released p hp)
  refine hf.of_same (congrArg Books.released books) ?_ ?_ ?_ (congrArg Books.addedAs books)
    ?_ ?_ ?_ hlate
  · intro q hq
    rcases (moved.holds_iff q).mp hq with ⟨hold, -⟩ | ⟨rfl, -⟩
    · exact .inl hold
    · exact .inl hp
  · exact moved.heap_eq hheap
  · exact moved.id_eq hid
  · intro q x hx
    rw [hqueue] at hx
    rw [hc, hd]
    exact ⟨hx, fun hin => hin, Iff.rfl⟩
  · rw [hc, hd, hctr]
    exact hf.known
  · rw [hmax, hqueue]
    exact hf.removes

theorem Forgotten.of_marks (hf : Forgotten w) (hb : w'.buckets = w.buckets) (hm : w'.mem = w.mem)
    {c d : Finset Nat} {r : Finset Ptr} {l : List Event}
    (books : w'.books = { w.books with
      cancelledPending := c, detachedPending := d, released := r, log := l })
    (hr : ∀ q ∈ r, ¬w.Holds q ∧ ∀ x, Op.add q x ∈ w.timerOperationsQueue → x ∈ d)
    (hkept : ∀ q x, Op.add q x ∈ w.timerOperationsQueue → x ∈ c → x ∉ d →
      (w.mem q).heap = true ∧ (w.mem q).id = x)
    (hknown : ∀ x ∈ c, x ∉ d → x ≤ w.timerIdCounter) (hlate : w'.lateAccess = w.lateAccess) :
    Forgotten w' := by
  have hqueue : w'.timerOperationsQueue = w.timerOperationsQueue :=
    congrArg Books.timerOperationsQueue books
  have hmax : w'.maxAddedId = w.maxAddedId := congrArg Books.maxAddedId books
  have hctr : w'.timerIdCounter = w.timerIdCounter := congrArg Books.timerIdCounter books
  have hcw : w'.cancelledPending = c := congrArg Books.cancelledPending books
  have hdw : w'.detachedPending = d := congrArg Books.detachedPending books
  have hrw : w'.released = r := congrArg Books.released books
  have haddedAs : w'.addedAs = w.addedAs := congrArg Books.addedAs books
  refine ⟨?_, ?_, ?_, ?_, ?_, hlate.trans hf.late⟩
  · intro q hq
    rw [hrw] at hq
    rw [hqueue, hdw]
    unfold Holds
    rw [hb]
    exact hr q hq
  · rw [hqueue, hcw, hdw, hm]
    exact hkept
  · rw [hqueue, haddedAs]
    exact hf.addedAs
  · rw [hcw, hdw, hctr]
    exact hknown
  · rw [hmax, hqueue]
    exact hf.removes

/-- A timer may be given up once its id is drained or detached. -/
theorem Forgotten.releasable (hf : Forgotten w) (h : Inv w) (hpid : (w.mem p).id = id)
    (unmapped : w.timerMap id = none) (gone : id ≤ w.maxAddedId ∨ id ∈ w.detachedPending) :
    ¬w.Holds p ∧ ∀ x, Op.add p x ∈ w.timerOperationsQueue → x ∈ w.detachedPending := by
  refine ⟨?_, ?_⟩
  · intro hholds
    have hmap := (h.known p hholds).2
    rw [hpid, unmapped] at hmap
    contradiction
  · intro x hx
    by_contra hdet
    have hxid : x = id := by
      by_cases hcan : x ∈ w.cancelledPending
      · exact (hf.kept p x hx hcan hdet).2.symm.trans hpid
      · exact (h.live p x hx hcan hdet).1.symm.trans hpid
    subst hxid
    rcases gone with hold | hin
    · have := (h.queued_bounds hx).1
      omega
    · exact hdet hin

theorem Forgotten.of_release (hf : Forgotten w) (h : Inv w) (unmapped : w.timerMap id = none)
    (gone : id ≤ w.maxAddedId ∨ id ∈ w.detachedPending) :
    ∀ q ∈ (w.release id).released, ¬w.Holds q ∧
      ∀ x, Op.add q x ∈ w.timerOperationsQueue → x ∈ w.detachedPending := by
  intro q hq
  rw [release_released] at hq
  split at hq
  · exact hf.free q hq
  · split at hq
    · rename_i hpid
      rcases Finset.mem_insert.mp hq with rfl | hold
      · exact hf.releasable h hpid unmapped gone
      · exact hf.free q hold
    · exact hf.free q hq

/-- An embedded timer whose `ADD` is queued is not cancelled, so that what is
marked here is a heap timer. -/
theorem Forgotten.kept_insert (hf : Forgotten w) (h : Inv w) (new : w.maxAddedId < id)
    (ok : ¬EmbeddedInQueue w id) {q : Ptr} {x : Nat} (hx : Op.add q x ∈ w.timerOperationsQueue)
    (hc : x ∈ insert id w.cancelledPending) (hd : x ∉ w.detachedPending) :
    (w.mem q).heap = true ∧ (w.mem q).id = x := by
  by_cases hold : x ∈ w.cancelledPending
  · exact hf.kept q x hx hold hd
  · obtain rfl : x = id := (Finset.mem_insert.mp hc).resolve_right hold
    refine ⟨?_, (h.live q x hx hold hd).1⟩
    have hnot : w.embedded x ≠ true := fun hemb => ok ⟨new, hd, .inl hemb⟩
    have hadded := hf.addedAs q x hx
    simpa [embedded, hadded] using hnot

theorem Forgotten.of_add (hf : Forgotten w) (h : Inv w) {t : Timer} {expiry : Nat}
    (ok : AddOk w p t) (hb : w'.buckets = w.buckets)
    (hm : w'.mem = Function.update w.mem p
      { t with expiryTime := expiry, id := w.timerIdCounter + 1 })
    {l : List Event}
    (books : w'.books = { w.books with
      timerIdCounter := w.timerIdCounter + 1,
      timerOperationsQueue := w.timerOperationsQueue ++ [.add p (w.timerIdCounter + 1)],
      addedAs := Function.update w.addedAs (w.timerIdCounter + 1) (some p),
      released := w.released.erase p, log := l })
    (hlate : w'.lateAccess = w.lateAccess) : Forgotten w' := by
  have hqueue : w'.timerOperationsQueue =
      w.timerOperationsQueue ++ [.add p (w.timerIdCounter + 1)] :=
    congrArg Books.timerOperationsQueue books
  have hmax : w'.maxAddedId = w.maxAddedId := congrArg Books.maxAddedId books
  have hctr : w'.timerIdCounter = w.timerIdCounter + 1 := congrArg Books.timerIdCounter books
  have hc : w'.cancelledPending = w.cancelledPending := congrArg Books.cancelledPending books
  have hd : w'.detachedPending = w.detachedPending := congrArg Books.detachedPending books
  have hreleased : w'.released = w.released.erase p := congrArg Books.released books
  have haddedAs : w'.addedAs = Function.update w.addedAs (w.timerIdCounter + 1) (some p) :=
    congrArg Books.addedAs books
  have hsplit : ∀ q x, Op.add q x ∈ w'.timerOperationsQueue →
      (Op.add q x ∈ w.timerOperationsQueue ∧ x ≤ w.timerIdCounter) ∨
        (q = p ∧ x = w.timerIdCounter + 1) := by
    intro q x hx
    rw [hqueue, List.mem_append, List.mem_singleton] at hx
    rcases hx with hold | hnew
    · exact .inl ⟨hold, (h.queued_bounds hold).2⟩
    · exact .inr (Op.add.inj hnew)
  refine ⟨?_, ?_, ?_, ?_, ?_, hlate.trans hf.late⟩
  · intro q hq
    rw [hreleased, Finset.mem_erase] at hq
    obtain ⟨hne, hin⟩ := hq
    obtain ⟨hnot, hall⟩ := hf.free q hin
    refine ⟨?_, ?_⟩
    · unfold Holds
      rw [hb]
      exact hnot
    · intro x hx
      rw [hd]
      rcases hsplit q x hx with ⟨hold, -⟩ | ⟨rfl, -⟩
      · exact hall x hold
      · exact absurd rfl hne
  · intro q x hx hxc hxd
    rw [hc] at hxc
    rw [hd] at hxd
    rcases hsplit q x hx with ⟨hold, -⟩ | ⟨-, hnew⟩
    · -- an object with a cancelled `ADD` in the queue is a heap timer, and not armed again
      have hkept := hf.kept q x hold hxc hxd
      have hne : q ≠ p := by
        rintro rfl
        rcases ok.queued x hold with hin | ⟨-, hheap, -, -⟩
        · exact hxd hin
        · rw [hheap] at hkept
          exact Bool.false_ne_true hkept.1
      rw [hm, Function.update_of_ne hne]
      exact hkept
    · have := hf.known x hxc hxd
      omega
  · intro q x hx
    rw [haddedAs]
    rcases hsplit q x hx with ⟨hold, hle⟩ | ⟨rfl, rfl⟩
    · rw [Function.update_of_ne (by omega)]
      exact hf.addedAs q x hold
    · exact Function.update_self ..
  · intro x hxc hxd
    rw [hc] at hxc
    rw [hd] at hxd
    have := hf.known x hxc hxd
    omega
  · rw [hmax, hqueue, removesFollow_append]
    exact ⟨hf.removes, trivial⟩

theorem Forgotten.effect (hf : Forgotten w) (h : Inv w) (heff : Effect Policy.drained w w') :
    Forgotten w' := by
  have hadds : ∀ p id, Op.add p id ∈ w.timerOperationsQueue →
      Op.add p id ∈ w.timerOperationsQueue := fun _ _ hx => hx
  have hheld := hf.held_not_released
  cases heff with
  | quiet still books =>
      exact hf.of_queue still.buckets still.mem books hadds hf.removes (still.late hheld)
  | refresh hbuckets hmem books next dirty late =>
      exact hf.of_queue hbuckets hmem books hadds hf.removes (late hheld)
  | note e plain still books =>
      exact hf.of_queue still.buckets still.mem books hadds hf.removes (still.late hheld)
  | refused id unmapped old still books =>
      exact hf.of_queue still.buckets still.mem books hadds hf.removes (still.late hheld)
  | pass adv still books =>
      exact hf.of_queue still.buckets still.mem books hadds hf.removes (still.late hheld)
  | update id newDur still books =>
      refine hf.of_queue still.buckets still.mem books (by simp) ?_ (still.late hheld)
      rw [removesFollow_append]
      exact ⟨hf.removes, trivial⟩
  | remove id done ok still books =>
      refine hf.of_queue still.buckets still.mem books (by simp) ?_ (still.late hheld)
      have hle : id ≤ w.timerIdCounter := ok
      have hissued := h.issued
      rw [removesFollow_append, h.queued, List.length_range']
      exact ⟨hf.removes, by omega, trivial⟩
  | pop op rest head other still books =>
      refine hf.of_queue still.buckets still.mem books ?_ ?_ (still.late hheld)
      · intro q x hx
        rw [head]
        exact List.mem_cons_of_mem _ hx
      · have hremoves := hf.removes
        rw [head] at hremoves
        exact hremoves.tail other
  | pendRemove id done rest plain released hplain head unmapped new still books =>
      have hremoves := hf.removes
      rw [head] at hremoves
      have hle : id ≤ w.maxAddedId := hremoves.1
      omega
  | add p t expiry ok hbuckets hmem books next dirty late =>
      exact hf.of_add h ok hbuckets hmem books late
  | release id unmapped gone still books =>
      exact hf.of_marks still.buckets still.mem books (hf.of_release h unmapped gone) hf.kept
        hf.known (still.late hheld)
  | pendCancel id ok pos unmapped new still books =>
      refine hf.of_marks still.buckets still.mem books ?_
        (fun q x hx hc hd => hf.kept_insert h new ok hx hc hd) ?_ (still.late hheld)
      · intro q hq
        by_cases hemb : w.embedded id = true
        · rw [if_pos hemb] at hq
          have hdet : id ∈ w.detachedPending := by
            by_contra hnot
            exact ok ⟨new, hnot, .inl hemb⟩
          exact hf.of_release h unmapped (.inr hdet) q hq
        · rw [if_neg hemb] at hq
          exact hf.free q hq
      · intro x hx hnot
        by_contra hlt
        rcases Finset.mem_insert.mp hx with rfl | hold
        · exact ok ⟨new, hnot, .inr (by omega)⟩
        · exact hlt (hf.known x hold hnot)
  | pendDetach id ok pos unmapped new still books =>
      have hsub : ∀ x, x ∈ w.detachedPending → x ∈ insert id w.detachedPending :=
        fun x hx => Finset.mem_insert_of_mem hx
      refine hf.of_marks still.buckets still.mem books ?_ ?_ ?_ (still.late hheld)
      · intro q hq
        obtain ⟨hnot, hall⟩ := hf.free q hq
        exact ⟨hnot, fun x hx => hsub x (hall x hx)⟩
      · exact fun q x hx hc hd => hf.kept q x hx hc fun hin => hd (hsub x hin)
      · exact fun x hx hd => hf.known x hx fun hin => hd (hsub x hin)
  | dropDetached p id rest head detached still books =>
      have hholds : ∀ q, w'.Holds q → w.Holds q := by
        intro q hq
        unfold Holds
        rw [← still.buckets]
        exact hq
      refine hf.of_drain h head (fun q hq => .inl (hholds q hq)) ?_ ?_ (Finset.Subset.refl _) ?_
        books (still.late hheld)
      · simp [still.mem]
      · simp [still.mem]
      · intro x hx
        simp [hx]
  | dropCancelled p id rest head attached cancelled hbuckets hmem books next dirty late =>
      have hholds : ∀ q, w'.Holds q → w.Holds q := by
        intro q hq
        unfold Holds
        rw [← hbuckets]
        exact hq
      have hfree : p ∉ w.released :=
        hf.not_released_of_head head attached
      refine hf.of_drain h head (fun q hq => .inl (hholds q hq)) ?_ ?_
        (Finset.erase_subset _ _) (fun _ _ => Iff.rfl) books (late hfree)
      · simp [hmem]
      · simp [hmem]
  | accept p id rest head attached live moved books =>
      have hfree : p ∉ w.released :=
        hf.not_released_of_head head attached
      refine hf.of_drain h head ?_ ?_ ?_ (Finset.Subset.refl _) (fun _ _ => Iff.rfl) books
        (moved.late hheld hfree)
      · intro q hq
        rcases (moved.holds_iff q).mp hq with ⟨hold, -⟩ | ⟨rfl, -⟩
        · exact .inl hold
        · exact .inr hfree
      · exact moved.heap_eq fun _ => rfl
      · exact moved.id_eq fun _ => rfl
  | rearm id p newDur expiry mapped moved books =>
      exact hf.of_moved moved (h.held id p mapped).2 (fun _ => rfl) (fun _ => rfl) books
  | unlink id p e kind mapped moved books =>
      exact hf.of_moved moved (h.held id p mapped).2 (fun _ => rfl) (fun _ => rfl) books
  | fire p adv holds due moved books =>
      exact hf.of_moved moved holds (fun _ => rfl) (fun _ => rfl) books
  | relink p adv holds early moved books =>
      exact hf.of_moved moved holds (fun _ => rfl) (fun _ => rfl) (m := w.timerMap)
        (k := w.activeTimerCount) (l := w.log) books

end Forgotten

theorem forgotten_new (clock : Clock) : Forgotten (TimerWheel.new clock) := by
  refine ⟨?_, ?_, ?_, ?_, trivial, rfl⟩
  · simp [TimerWheel.new]
  · simp [TimerWheel.new]
  · simp [TimerWheel.new]
  · simp [TimerWheel.new]

/-- In a run that cancels no embedded timer while its `ADD` is queued, the wheel
never reads or writes a timer it has given up. -/
theorem no_late_access {clock : Clock} {w : TimerWheel} (h : Reachable Policy.drained clock w) :
    w.lateAccess = [] := by
  have hforgotten : Forgotten w :=
    h.induct trivial (forgotten_new clock) fun hinv hf heff => hf.effect hinv heff
  exact hforgotten.late

def shortDetached : TimerWheel :=
  ((shortAdded.cancelTimerDetach 1).2.tick shortClock 1).getD shortAdded

theorem shortDetached_reachable : Reachable Policy.drained shortClock shortDetached := by
  have hcall : Call.Ok Policy.drained shortAdded (.cancelTimerDetach 1) := trivial
  have hdetach : (Call.cancelTimerDetach 1).exec shortClock 0 shortAdded =
      some (shortAdded.cancelTimerDetach 1).2 := rfl
  have hok : Call.Ok Policy.drained (shortAdded.cancelTimerDetach 1).2 .tick := trivial
  obtain ⟨w, hw⟩ : ∃ w, (shortAdded.cancelTimerDetach 1).2.tick shortClock 1 = some w := ⟨_, rfl⟩
  have hrun : Call.tick.exec shortClock 1 (shortAdded.cancelTimerDetach 1).2 =
      some shortDetached := by
    rw [shortDetached, Call.exec, hw, Option.getD_some]
  exact .step (.step shortAdded_reachable hcall hdetach) hok hrun

theorem shortDetached_not_late :
    0 ∈ shortDetached.released ∧ shortDetached.maxAddedId = 1 ∧ shortDetached.lateAccess = [] :=
  ⟨by decide, rfl, no_late_access shortDetached_reachable⟩

def embeddedTimer : Timer := { shortTimer with heap := false }

def embeddedAdded : TimerWheel :=
  (((TimerWheel.new shortClock).arm 0 embeddedTimer).addTimer shortClock 0).2

def embeddedCancelled : TimerWheel := (embeddedAdded.cancelTimer 1).2

theorem embeddedCancelled_reachable : Reachable Policy.promised shortClock embeddedCancelled := by
  have hadd : Call.Ok Policy.promised (TimerWheel.new shortClock) (.addTimer 0 embeddedTimer) :=
    ⟨rfl, fun _ => by simp [TimerWheel.new], fun _ hmem => by simp [TimerWheel.new] at hmem⟩
  have hissue : (Call.addTimer 0 embeddedTimer).exec shortClock 0 (TimerWheel.new shortClock) =
      some embeddedAdded := rfl
  have hcall : Call.Ok Policy.promised embeddedAdded (.cancelTimer 1) := trivial
  have hcancel : (Call.cancelTimer 1).exec shortClock 0 embeddedAdded = some embeddedCancelled :=
    rfl
  exact .step (.step .start hadd hissue) hcall hcancel

/-- The tick that drops the cancelled `ADD` looks for a coroutine and at `heap`
in the object that the client got back. -/
theorem tick_reads_released :
    ¬∀ (clock : Clock) (w : TimerWheel), Reachable Policy.promised clock w →
      w.lateAccess = [] := by
  intro hall
  have hlate : (embeddedCancelled.tick shortClock 1).map TimerWheel.lateAccess = some [0] := rfl
  obtain ⟨w, hw, hlate⟩ := Option.map_eq_some_iff.mp hlate
  have hrun : Call.tick.exec shortClock 1 embeddedCancelled = some w := hw
  have hok : Call.Ok Policy.promised embeddedCancelled .tick := trivial
  have hempty := hall shortClock w (.step embeddedCancelled_reachable hok hrun)
  rw [hempty] at hlate
  exact absurd hlate (List.cons_ne_nil 0 []).symm

end Uvent.Timers
