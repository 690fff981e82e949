import Uvent.Timers.Effects
import Mathlib.Data.List.Range

/-!
# The representation invariant

The map and the buckets hold the same timers, all active; the counter is their
number; the queued `ADD`s carry the ids after `maxAddedId_`, in order; and the
timer of a queued `ADD` that will be admitted is still the one that was added.
-/

namespace Uvent.Timers

open TimerWheel

def addIds (ops : List Op) : List Nat :=
  ops.filterMap fun op => match op with
    | .add _ id => some id
    | _ => none

@[simp] theorem addIds_add (p : Ptr) (id : Nat) (ops : List Op) :
    addIds (.add p id :: ops) = id :: addIds ops := rfl

theorem addIds_append (ops ops' : List Op) : addIds (ops ++ ops') = addIds ops ++ addIds ops' :=
  List.filterMap_append

theorem addIds_of_ne_add {op : Op} (h : ∀ p id, op ≠ .add p id) : addIds [op] = [] := by
  cases op with
  | add p id => exact absurd rfl (h p id)
  | update id newDur => rfl
  | remove id done => rfl

theorem addIds_cons_of_ne_add {op : Op} (h : ∀ p id, op ≠ .add p id) (ops : List Op) :
    addIds (op :: ops) = addIds ops := by
  rw [← List.singleton_append, addIds_append, addIds_of_ne_add h, List.nil_append]

theorem mem_addIds {ops : List Op} {p : Ptr} {id : Nat} (h : Op.add p id ∈ ops) :
    id ∈ addIds ops :=
  List.mem_filterMap.mpr ⟨_, h, rfl⟩

structure Inv (w : TimerWheel) : Prop where
  linked : Linked w.buckets w.mem
  known : ∀ p, w.Holds p → (w.mem p).active = true ∧ w.timerMap (w.mem p).id = some p
  held : ∀ id p, w.timerMap id = some p → (w.mem p).id = id ∧ w.Holds p
  count : ∃ ids : Finset Nat, ids.card = w.activeTimerCount ∧
    ∀ id, id ∈ ids ↔ w.timerMap id ≠ none
  mapped : ∀ id p, w.timerMap id = some p → 0 < id ∧ id ≤ w.maxAddedId
  queued : addIds w.timerOperationsQueue =
    List.range' (w.maxAddedId + 1) (w.timerIdCounter - w.maxAddedId)
  issued : w.maxAddedId ≤ w.timerIdCounter
  live : ∀ p id, Op.add p id ∈ w.timerOperationsQueue → id ∉ w.cancelledPending →
    id ∉ w.detachedPending → (w.mem p).id = id ∧ (w.mem p).active = true ∧ ¬w.Holds p

section

variable {w w' : TimerWheel} {policy : Policy}

theorem Inv.queued_bounds (h : Inv w) {p : Ptr} {id : Nat}
    (hq : Op.add p id ∈ w.timerOperationsQueue) :
    w.maxAddedId < id ∧ id ≤ w.timerIdCounter := by
  have hmem := mem_addIds hq
  rw [h.queued, List.mem_range'_1] at hmem
  have := h.issued
  omega

theorem Inv.head_id (h : Inv w) {p : Ptr} {id : Nat} {rest : List Op}
    (hq : w.timerOperationsQueue = .add p id :: rest) :
    id = w.maxAddedId + 1 ∧ id ≤ w.timerIdCounter ∧
      addIds rest = List.range' (id + 1) (w.timerIdCounter - id) := by
  have hids := h.queued
  have hmem : Op.add p id ∈ w.timerOperationsQueue := by rw [hq]; exact List.mem_cons_self
  have hbounds := h.queued_bounds hmem
  obtain ⟨n, hn⟩ : ∃ n, w.timerIdCounter - w.maxAddedId = n + 1 :=
    ⟨w.timerIdCounter - w.maxAddedId - 1, by omega⟩
  rw [hq, addIds_add, hn, List.range'_succ] at hids
  obtain ⟨hid, hrest⟩ := List.cons_eq_cons.mp hids
  refine ⟨hid, hbounds.2, ?_⟩
  rw [hrest, hid]
  congr 1
  omega

theorem Inv.unmapped_of_new (h : Inv w) {id : Nat} (hnew : w.maxAddedId < id) :
    w.timerMap id = none := by
  by_contra hne
  obtain ⟨q, hmap⟩ := Option.ne_none_iff_exists'.mp hne
  have := (h.mapped id q hmap).2
  omega

theorem Inv.unmapped_head (h : Inv w) {p : Ptr} {id : Nat} {rest : List Op}
    (hq : w.timerOperationsQueue = .add p id :: rest) : w.timerMap id = none := by
  obtain ⟨hid, -, -⟩ := h.head_id hq
  exact h.unmapped_of_new (by omega)

/-- The buckets, the timers and the map stay; the queue may lose its head and
ids may be marked. -/
theorem Inv.of_same_wheel (h : Inv w) (hb : w'.buckets = w.buckets) (hm : w'.mem = w.mem)
    (hmap : w'.timerMap = w.timerMap) (hcount : w'.activeTimerCount = w.activeTimerCount)
    (hmax : w.maxAddedId ≤ w'.maxAddedId) (hissued : w'.maxAddedId ≤ w'.timerIdCounter)
    (hqueued : addIds w'.timerOperationsQueue =
      List.range' (w'.maxAddedId + 1) (w'.timerIdCounter - w'.maxAddedId))
    (hlive : ∀ p id, Op.add p id ∈ w'.timerOperationsQueue → id ∉ w'.cancelledPending →
      id ∉ w'.detachedPending → Op.add p id ∈ w.timerOperationsQueue ∧
        id ∉ w.cancelledPending ∧ id ∉ w.detachedPending) : Inv w' := by
  have hholds : ∀ q, w'.Holds q ↔ w.Holds q := by
    intro q
    unfold Holds
    rw [hb]
  refine ⟨?_, ?_, ?_, ?_, ?_, hqueued, hissued, ?_⟩
  · rw [hb, hm]
    exact h.linked
  · intro p hp
    rw [hm, hmap]
    exact h.known p ((hholds p).mp hp)
  · intro id p hp
    rw [hmap] at hp
    rw [hm, hholds]
    exact h.held id p hp
  · rw [hmap, hcount]
    exact h.count
  · intro id p hp
    rw [hmap] at hp
    have := h.mapped id p hp
    omega
  · intro p id hq hc hd
    obtain ⟨hq', hc', hd'⟩ := hlive p id hq hc hd
    rw [hm, hholds]
    exact h.live p id hq' hc' hd'

theorem Inv.of_marks (h : Inv w) (hb : w'.buckets = w.buckets) (hm : w'.mem = w.mem)
    {c d : Finset Nat} {r : Finset Ptr} {l : List Event} {time : Nat}
    (hc : w.cancelledPending ⊆ c) (hd : w.detachedPending ⊆ d)
    (books : w'.books = { w.books with
      cancelledPending := c, detachedPending := d, released := r, log := l,
      currentTime := time }) : Inv w' := by
  have hmax : w'.maxAddedId = w.maxAddedId := congrArg Books.maxAddedId books
  have hctr : w'.timerIdCounter = w.timerIdCounter := congrArg Books.timerIdCounter books
  have hqueue : w'.timerOperationsQueue = w.timerOperationsQueue :=
    congrArg Books.timerOperationsQueue books
  have hc' : w'.cancelledPending = c := congrArg Books.cancelledPending books
  have hd' : w'.detachedPending = d := congrArg Books.detachedPending books
  apply h.of_same_wheel hb hm (congrArg Books.timerMap books)
    (congrArg Books.activeTimerCount books) hmax.ge
  · rw [hmax, hctr]
    exact h.issued
  · rw [hqueue, hmax, hctr]
    exact h.queued
  · intro p id hq hidc hidd
    rw [hqueue] at hq
    rw [hc'] at hidc
    rw [hd'] at hidd
    exact ⟨hq, fun hin => hidc (hc hin), fun hin => hidd (hd hin)⟩

theorem Inv.of_queue (h : Inv w) (hb : w'.buckets = w.buckets) (hm : w'.mem = w.mem)
    {q : List Op} {c : Finset Nat} {r : Finset Ptr} {l : List Event}
    (hc : w.cancelledPending ⊆ c) (hids : addIds q = addIds w.timerOperationsQueue)
    (hmem : ∀ p id, Op.add p id ∈ q → Op.add p id ∈ w.timerOperationsQueue)
    (books : w'.books = { w.books with
      timerOperationsQueue := q, cancelledPending := c, released := r, log := l }) : Inv w' := by
  have hmax : w'.maxAddedId = w.maxAddedId := congrArg Books.maxAddedId books
  have hctr : w'.timerIdCounter = w.timerIdCounter := congrArg Books.timerIdCounter books
  have hqueue : w'.timerOperationsQueue = q := congrArg Books.timerOperationsQueue books
  have hc' : w'.cancelledPending = c := congrArg Books.cancelledPending books
  have hd' : w'.detachedPending = w.detachedPending := congrArg Books.detachedPending books
  apply h.of_same_wheel hb hm (congrArg Books.timerMap books)
    (congrArg Books.activeTimerCount books) hmax.ge
  · rw [hmax, hctr]
    exact h.issued
  · rw [hqueue, hmax, hctr, hids]
    exact h.queued
  · intro p id hq hidc hidd
    rw [hqueue] at hq
    rw [hc'] at hidc
    rw [hd'] at hidd
    exact ⟨hmem p id hq, fun hin => hidc (hc hin), hidd⟩

/-- The head of the queue is an `ADD` that is dropped. -/
theorem Inv.of_drop (h : Inv w) (hb : w'.buckets = w.buckets) (hm : w'.mem = w.mem)
    {p : Ptr} {id : Nat} {rest : List Op} {c d : Finset Nat}
    (head : w.timerOperationsQueue = .add p id :: rest)
    (hc : ∀ x, x ≠ id → x ∈ w.cancelledPending → x ∈ c)
    (hd : ∀ x, x ≠ id → x ∈ w.detachedPending → x ∈ d)
    (books : w'.books = { w.books with
      timerOperationsQueue := rest, maxAddedId := max w.maxAddedId id,
      cancelledPending := c, detachedPending := d }) : Inv w' := by
  obtain ⟨hid, hle, hrest⟩ := h.head_id head
  have hmax : w'.maxAddedId = id := by
    have : w'.maxAddedId = max w.maxAddedId id := congrArg Books.maxAddedId books
    omega
  have hctr : w'.timerIdCounter = w.timerIdCounter := congrArg Books.timerIdCounter books
  have hqueue : w'.timerOperationsQueue = rest := congrArg Books.timerOperationsQueue books
  have hc' : w'.cancelledPending = c := congrArg Books.cancelledPending books
  have hd' : w'.detachedPending = d := congrArg Books.detachedPending books
  apply h.of_same_wheel hb hm (congrArg Books.timerMap books)
    (congrArg Books.activeTimerCount books) (by omega) (by omega)
  · rw [hqueue, hmax, hctr, hrest]
  · intro q x hq hxc hxd
    rw [hqueue] at hq
    have hx := mem_addIds hq
    rw [hrest, List.mem_range'_1] at hx
    rw [hc'] at hxc
    rw [hd'] at hxd
    refine ⟨by rw [head]; exact List.mem_cons_of_mem _ hq, ?_, ?_⟩
    · exact fun hin => hxc (hc x (by omega) hin)
    · exact fun hin => hxd (hd x (by omega) hin)

/-! ## Timers that move -/

theorem Moved.holds_iff {p : Ptr} {target : Option (Nat × Nat)} {f : Timer → Timer}
    (moved : Moved w w' p target f) (q : Ptr) :
    w'.Holds q ↔ (w.Holds q ∧ q ≠ p) ∨ (q = p ∧ target ≠ none) := by
  constructor
  · rintro ⟨level, slot, hq⟩
    rcases (moved.buckets level slot q).mp hq with ⟨hold, hne⟩ | ⟨rfl, htarget⟩
    · exact .inl ⟨⟨level, slot, hold⟩, hne⟩
    · exact .inr ⟨rfl, by rw [htarget]; simp⟩
  · rintro (⟨⟨level, slot, hold⟩, hne⟩ | ⟨rfl, htarget⟩)
    · exact ⟨level, slot, (moved.buckets level slot q).mpr (.inl ⟨hold, hne⟩)⟩
    · obtain ⟨⟨level, slot⟩, heq⟩ := Option.ne_none_iff_exists'.mp htarget
      exact ⟨level, slot, (moved.buckets level slot q).mpr (.inr ⟨rfl, heq⟩)⟩

theorem Inv.of_moved_on (h : Inv w) {p : Ptr} {target : Nat × Nat} {f : Timer → Timer}
    (moved : Moved w w' p (some target) f) (hp : w.Holds p)
    (hid : ∀ t, (f t).id = t.id) (hactive : ∀ t, (f t).active = t.active) {l : List Event}
    (books : w'.books = { w.books with log := l }) : Inv w' := by
  have hmap : w'.timerMap = w.timerMap := congrArg Books.timerMap books
  have hmax : w'.maxAddedId = w.maxAddedId := congrArg Books.maxAddedId books
  have hctr : w'.timerIdCounter = w.timerIdCounter := congrArg Books.timerIdCounter books
  have hqueue : w'.timerOperationsQueue = w.timerOperationsQueue :=
    congrArg Books.timerOperationsQueue books
  have hcount : w'.activeTimerCount = w.activeTimerCount := congrArg Books.activeTimerCount books
  have hc : w'.cancelledPending = w.cancelledPending := congrArg Books.cancelledPending books
  have hd : w'.detachedPending = w.detachedPending := congrArg Books.detachedPending books
  have hholds : ∀ q, w'.Holds q ↔ w.Holds q := by
    intro q
    rw [moved.holds_iff]
    by_cases hq : q = p
    · subst hq
      simp [hp]
    · simp [hq]
  have hids : ∀ q, (w'.mem q).id = (w.mem q).id := by
    intro q
    by_cases hq : q = p
    · subst hq
      exact (Timer.id_of_unplaced moved.self).trans (hid _)
    · exact Timer.id_of_unplaced (moved.others q hq)
  have hact : ∀ q, (w'.mem q).active = (w.mem q).active := by
    intro q
    by_cases hq : q = p
    · subst hq
      exact (Timer.active_of_unplaced moved.self).trans (hactive _)
    · exact Timer.active_of_unplaced (moved.others q hq)
  refine ⟨moved.linked, ?_, ?_, ?_, ?_, ?_, ?_, ?_⟩
  · intro q hq
    rw [hact, hids, hmap]
    exact h.known q ((hholds q).mp hq)
  · intro id q hq
    rw [hmap] at hq
    rw [hids, hholds]
    exact h.held id q hq
  · rw [hmap, hcount]
    exact h.count
  · intro id q hq
    rw [hmap] at hq
    rw [hmax]
    exact h.mapped id q hq
  · rw [hqueue, hmax, hctr]
    exact h.queued
  · rw [hmax, hctr]
    exact h.issued
  · intro q id hq hidc hidd
    rw [hqueue] at hq
    rw [hc] at hidc
    rw [hd] at hidd
    rw [hids, hact, hholds]
    exact h.live q id hq hidc hidd

theorem Inv.of_moved_out (h : Inv w) {p : Ptr} {id : Nat} {f : Timer → Timer}
    (moved : Moved w w' p none f) (hp : w.timerMap id = some p) {l : List Event}
    (books : w'.books = { w.books with
      timerMap := Function.update w.timerMap id none,
      activeTimerCount := w.activeTimerCount - 1, log := l }) : Inv w' := by
  have hmap : w'.timerMap = Function.update w.timerMap id none := congrArg Books.timerMap books
  have hmax : w'.maxAddedId = w.maxAddedId := congrArg Books.maxAddedId books
  have hctr : w'.timerIdCounter = w.timerIdCounter := congrArg Books.timerIdCounter books
  have hqueue : w'.timerOperationsQueue = w.timerOperationsQueue :=
    congrArg Books.timerOperationsQueue books
  have hcount : w'.activeTimerCount = w.activeTimerCount - 1 :=
    congrArg Books.activeTimerCount books
  have hc : w'.cancelledPending = w.cancelledPending := congrArg Books.cancelledPending books
  have hd : w'.detachedPending = w.detachedPending := congrArg Books.detachedPending books
  have hholds : ∀ q, w'.Holds q ↔ w.Holds q ∧ q ≠ p := by
    intro q
    rw [moved.holds_iff]
    simp
  obtain ⟨hpid, hpholds⟩ := h.held id p hp
  refine ⟨moved.linked, ?_, ?_, ?_, ?_, ?_, ?_, ?_⟩
  · intro q hq
    obtain ⟨hqold, hqp⟩ := (hholds q).mp hq
    obtain ⟨hact, hqmap⟩ := h.known q hqold
    have hne : (w.mem q).id ≠ id := by
      intro heq
      rw [heq, hp] at hqmap
      exact hqp (Option.some.inj hqmap).symm
    have hqid : (w'.mem q).id = (w.mem q).id := Timer.id_of_unplaced (moved.others q hqp)
    have hqact : (w'.mem q).active = (w.mem q).active := Timer.active_of_unplaced (moved.others q hqp)
    rw [hqid, hqact, hmap, Function.update_of_ne hne]
    exact ⟨hact, hqmap⟩
  · intro x q hq
    rw [hmap] at hq
    have hx : x ≠ id := by
      rintro rfl
      rw [Function.update_self] at hq
      contradiction
    rw [Function.update_of_ne hx] at hq
    obtain ⟨hqid, hqholds⟩ := h.held x q hq
    have hqp : q ≠ p := by
      rintro rfl
      exact hx (hqid.symm.trans hpid)
    refine ⟨(Timer.id_of_unplaced (moved.others q hqp)).trans hqid, (hholds q).mpr ⟨hqholds, hqp⟩⟩
  · obtain ⟨ids, hcard, hids⟩ := h.count
    have hmem : id ∈ ids := (hids id).mpr (by rw [hp]; simp)
    refine ⟨ids.erase id, ?_, ?_⟩
    · rw [Finset.card_erase_of_mem hmem, hcard, hcount]
    · intro x
      rw [Finset.mem_erase, hids, hmap]
      by_cases hx : x = id
      · simp [hx]
      · simp [hx]
  · intro x q hq
    rw [hmap] at hq
    have hx : x ≠ id := by
      rintro rfl
      rw [Function.update_self] at hq
      contradiction
    rw [Function.update_of_ne hx] at hq
    rw [hmax]
    exact h.mapped x q hq
  · rw [hqueue, hmax, hctr]
    exact h.queued
  · rw [hmax, hctr]
    exact h.issued
  · intro q x hq hxc hxd
    rw [hqueue] at hq
    rw [hc] at hxc
    rw [hd] at hxd
    obtain ⟨hqid, hqact, hqnot⟩ := h.live q x hq hxc hxd
    have hqp : q ≠ p := by
      rintro rfl
      exact hqnot hpholds
    refine ⟨(Timer.id_of_unplaced (moved.others q hqp)).trans hqid,
      (Timer.active_of_unplaced (moved.others q hqp)).trans hqact, ?_⟩
    rw [hholds]
    exact fun hcon => hqnot hcon.1

/-- A timer that is in no bucket goes in, and its id joins the map. -/
theorem Inv.put_in (h : Inv w) {p : Ptr} {id : Nat} {target : Nat × Nat}
    (hpid : (w.mem p).id = id) (hpact : (w.mem p).active = true) (hpos : 0 < id)
    (hfresh : w.timerMap id = none) (moved : Moved w w' p (some target) fun t => t)
    {q : List Op} {n m : Nat} {l : List Event}
    (books : w'.books = { w.books with
      timerOperationsQueue := q, timerIdCounter := n, maxAddedId := m,
      timerMap := Function.update w.timerMap (w.mem p).id (some p),
      activeTimerCount := w.activeTimerCount + 1, log := l })
    (hmax : w.maxAddedId ≤ m) (hid : id ≤ m) (hissued : m ≤ n)
    (hqueued : addIds q = List.range' (m + 1) (n - m))
    (hlive : ∀ r x, Op.add r x ∈ q → x ∉ w.cancelledPending → x ∉ w.detachedPending →
      r ≠ p ∧ (w.mem r).id = x ∧ (w.mem r).active = true ∧ ¬w.Holds r) : Inv w' := by
  have hmap : w'.timerMap = Function.update w.timerMap id (some p) := by
    have : w'.timerMap = Function.update w.timerMap (w.mem p).id (some p) :=
      congrArg Books.timerMap books
    rw [this, hpid]
  have hmax' : w'.maxAddedId = m := congrArg Books.maxAddedId books
  have hctr : w'.timerIdCounter = n := congrArg Books.timerIdCounter books
  have hqueue : w'.timerOperationsQueue = q := congrArg Books.timerOperationsQueue books
  have hcount : w'.activeTimerCount = w.activeTimerCount + 1 :=
    congrArg Books.activeTimerCount books
  have hc : w'.cancelledPending = w.cancelledPending := congrArg Books.cancelledPending books
  have hd : w'.detachedPending = w.detachedPending := congrArg Books.detachedPending books
  have hholds : ∀ r, w'.Holds r ↔ w.Holds r ∨ r = p := by
    intro r
    rw [moved.holds_iff]
    by_cases hr : r = p
    · subst hr
      simp
    · simp [hr]
  have hids : ∀ r, (w'.mem r).id = (w.mem r).id := by
    intro r
    by_cases hr : r = p
    · subst hr
      exact Timer.id_of_unplaced moved.self
    · exact Timer.id_of_unplaced (moved.others r hr)
  have hact : ∀ r, (w'.mem r).active = (w.mem r).active := by
    intro r
    by_cases hr : r = p
    · subst hr
      exact Timer.active_of_unplaced moved.self
    · exact Timer.active_of_unplaced (moved.others r hr)
  refine ⟨moved.linked, ?_, ?_, ?_, ?_, ?_, ?_, ?_⟩
  · intro r hr
    rw [hact, hids, hmap]
    rcases (hholds r).mp hr with hold | rfl
    · obtain ⟨hqact, hqmap⟩ := h.known r hold
      have hne : (w.mem r).id ≠ id := by
        intro heq
        rw [heq, hfresh] at hqmap
        contradiction
      rw [Function.update_of_ne hne]
      exact ⟨hqact, hqmap⟩
    · rw [hpid, Function.update_self]
      exact ⟨hpact, rfl⟩
  · intro x r hr
    rw [hmap] at hr
    rw [hids, hholds]
    by_cases hx : x = id
    · subst hx
      rw [Function.update_self] at hr
      obtain rfl := Option.some.inj hr
      exact ⟨hpid, .inr rfl⟩
    · rw [Function.update_of_ne hx] at hr
      obtain ⟨hqid, hqholds⟩ := h.held x r hr
      exact ⟨hqid, .inl hqholds⟩
  · obtain ⟨ids, hcard, hidsiff⟩ := h.count
    have hnot : id ∉ ids := fun hin => (hidsiff id).mp hin hfresh
    refine ⟨insert id ids, ?_, ?_⟩
    · rw [Finset.card_insert_of_notMem hnot, hcard, hcount]
    · intro x
      rw [Finset.mem_insert, hidsiff, hmap]
      by_cases hx : x = id
      · simp [hx]
      · simp [hx]
  · intro x r hr
    rw [hmap] at hr
    rw [hmax']
    by_cases hx : x = id
    · omega
    · rw [Function.update_of_ne hx] at hr
      have := h.mapped x r hr
      omega
  · rw [hqueue, hmax', hctr, hqueued]
  · omega
  · intro r x hr hxc hxd
    rw [hqueue] at hr
    rw [hc] at hxc
    rw [hd] at hxd
    obtain ⟨hqp, hqid, hqact, hqnot⟩ := hlive r x hr hxc hxd
    rw [hids, hact, hholds]
    exact ⟨hqid, hqact, fun hcon => hcon.elim hqnot hqp⟩

/-- The timer of the `ADD` at the head of the queue goes in. -/
theorem Inv.of_accept (h : Inv w) {p : Ptr} {id : Nat} {rest : List Op} {target : Nat × Nat}
    (head : w.timerOperationsQueue = .add p id :: rest) (hdet : id ∉ w.detachedPending)
    (hcan : id ∉ w.cancelledPending) (moved : Moved w w' p (some target) fun t => t)
    {l : List Event}
    (books : w'.books = { w.books with
      timerOperationsQueue := rest, maxAddedId := max w.maxAddedId id,
      timerMap := Function.update w.timerMap (w.mem p).id (some p),
      activeTimerCount := w.activeTimerCount + 1, log := l }) : Inv w' := by
  obtain ⟨hid, hle, hrest⟩ := h.head_id head
  have hmem : Op.add p id ∈ w.timerOperationsQueue := by rw [head]; exact List.mem_cons_self
  obtain ⟨hpid, hpact, hpnot⟩ := h.live p id hmem hcan hdet
  have hmax : max w.maxAddedId id = id := by omega
  rw [hmax] at books
  refine h.put_in hpid hpact (by omega) (h.unmapped_head head) moved books (by omega) le_rfl hle
    hrest fun q x hq hxc hxd => ?_
  have hx := mem_addIds hq
  rw [hrest, List.mem_range'_1] at hx
  have hq' : Op.add q x ∈ w.timerOperationsQueue := by
    rw [head]
    exact List.mem_cons_of_mem _ hq
  obtain ⟨hqid, hqact, hqnot⟩ := h.live q x hq' hxc hxd
  refine ⟨?_, hqid, hqact, hqnot⟩
  rintro rfl
  rw [hpid] at hqid
  omega

theorem Inv.of_arm (h : Inv w) {p : Ptr} {t : Timer} (hnot : ¬w.Holds p)
    (hb : w'.buckets = w.buckets) (hm : w'.mem = Function.update w.mem p t)
    {n : Nat} {q : List Op} {a : Nat → Option Ptr} {r : Finset Ptr} {l : List Event}
    (books : w'.books = { w.books with
      timerIdCounter := n, timerOperationsQueue := q, addedAs := a, released := r, log := l })
    (hissued : w.maxAddedId ≤ n)
    (hqueued : addIds q = List.range' (w.maxAddedId + 1) (n - w.maxAddedId))
    (hlive : ∀ x id, Op.add x id ∈ q → id ∉ w.cancelledPending → id ∉ w.detachedPending →
      (w'.mem x).id = id ∧ (w'.mem x).active = true ∧ ¬w.Holds x) : Inv w' := by
  have hmap : w'.timerMap = w.timerMap := congrArg Books.timerMap books
  have hmax : w'.maxAddedId = w.maxAddedId := congrArg Books.maxAddedId books
  have hctr : w'.timerIdCounter = n := congrArg Books.timerIdCounter books
  have hqueue : w'.timerOperationsQueue = q := congrArg Books.timerOperationsQueue books
  have hcount : w'.activeTimerCount = w.activeTimerCount := congrArg Books.activeTimerCount books
  have hc : w'.cancelledPending = w.cancelledPending := congrArg Books.cancelledPending books
  have hd : w'.detachedPending = w.detachedPending := congrArg Books.detachedPending books
  have hholds : ∀ x, w'.Holds x ↔ w.Holds x := by
    intro x
    unfold Holds
    rw [hb]
  have hother : ∀ x, x ≠ p → w'.mem x = w.mem x := by
    intro x hx
    rw [hm, Function.update_of_ne hx]
  have hne : ∀ x, w.Holds x → x ≠ p := by
    rintro x hx rfl
    exact hnot hx
  refine ⟨?_, ?_, ?_, ?_, ?_, ?_, ?_, ?_⟩
  · intro level slot pos x hx
    rw [hb] at hx
    rw [hother x (hne x ⟨level, slot, List.mem_of_getElem? hx⟩)]
    exact h.linked level slot pos x hx
  · intro x hx
    rw [hholds] at hx
    rw [hother x (hne x hx), hmap]
    exact h.known x hx
  · intro id x hx
    rw [hmap] at hx
    obtain ⟨hxid, hxholds⟩ := h.held id x hx
    rw [hother x (hne x hxholds), hholds]
    exact ⟨hxid, hxholds⟩
  · rw [hmap, hcount]
    exact h.count
  · intro id x hx
    rw [hmap] at hx
    rw [hmax]
    exact h.mapped id x hx
  · rw [hqueue, hmax, hctr]
    exact hqueued
  · omega
  · intro x id hx hidc hidd
    rw [hqueue] at hx
    rw [hc] at hidc
    rw [hd] at hidd
    rw [hholds]
    exact hlive x id hx hidc hidd

theorem Inv.of_add (h : Inv w) {p : Ptr} {t : Timer} {expiry : Nat} (ok : AddOk w p t)
    (hb : w'.buckets = w.buckets)
    (hm : w'.mem = Function.update w.mem p
      { t with expiryTime := expiry, id := w.timerIdCounter + 1 })
    {a : Nat → Option Ptr} {r : Finset Ptr} {l : List Event}
    (books : w'.books = { w.books with
      timerIdCounter := w.timerIdCounter + 1,
      timerOperationsQueue := w.timerOperationsQueue ++ [.add p (w.timerIdCounter + 1)],
      addedAs := a, released := r, log := l }) : Inv w' := by
  have hissued := h.issued
  have hnot : ¬w.Holds p := fun hp => ok.unmapped _ (h.known p hp).2
  refine h.of_arm hnot hb hm books (by omega) ?_ fun q id hq hidc hidd => ?_
  · have hlast : addIds [Op.add p (w.timerIdCounter + 1)] =
        [w.maxAddedId + 1 + (w.timerIdCounter - w.maxAddedId)] := by
      rw [show w.maxAddedId + 1 + (w.timerIdCounter - w.maxAddedId) = w.timerIdCounter + 1 by
        omega]
      rfl
    rw [addIds_append, h.queued, hlast,
      show w.timerIdCounter + 1 - w.maxAddedId = w.timerIdCounter - w.maxAddedId + 1 by omega,
      List.range'_1_concat]
  · rw [List.mem_append, List.mem_singleton] at hq
    rcases hq with hq | hq
    · have hqp : q ≠ p := by
        rintro rfl
        rcases ok.queued id hq with hin | hin
        · exact hidd hin
        · exact hidc hin.1
      rw [hm, Function.update_of_ne hqp]
      exact h.live q id hq hidc hidd
    · obtain ⟨rfl, rfl⟩ := Op.add.inj hq
      rw [hm, Function.update_self]
      exact ⟨rfl, ok.armed, hnot⟩

/-! ## Every effect keeps the invariant -/

theorem Inv.effect (h : Inv w) (heff : Effect policy w w') : Inv w' := by
  have hc : w.cancelledPending ⊆ w.cancelledPending := Finset.Subset.refl _
  have hd : w.detachedPending ⊆ w.detachedPending := Finset.Subset.refl _
  cases heff with
  | quiet still books => exact h.of_marks still.buckets still.mem hc hd books
  | refresh hb hm books => exact h.of_marks hb hm hc hd books
  | note e _ still books => exact h.of_marks still.buckets still.mem hc hd books
  | refused id _ _ still books => exact h.of_marks still.buckets still.mem hc hd books
  | update id newDur still books =>
      refine h.of_queue still.buckets still.mem hc ?_ ?_ books
      · rw [addIds_append, addIds_of_ne_add (by simp), List.append_nil]
      · simp
  | remove id done _ still books =>
      refine h.of_queue still.buckets still.mem hc ?_ ?_ books
      · rw [addIds_append, addIds_of_ne_add (by simp), List.append_nil]
      · simp
  | add p t expiry ok hb hm books => exact h.of_add ok hb hm books
  | pendCancel id _ _ _ _ still books =>
      exact h.of_marks still.buckets still.mem (Finset.subset_insert _ _) hd books
  | pendDetach id _ _ _ _ still books =>
      exact h.of_marks still.buckets still.mem hc (Finset.subset_insert _ _) books
  | pendRemove id done rest plain released _ head _ _ still books =>
      refine h.of_queue still.buckets still.mem (Finset.subset_insert _ _) ?_ ?_ books
      · rw [head, addIds_cons_of_ne_add (by simp)]
      · intro p x hx
        rw [head]
        exact List.mem_cons_of_mem _ hx
  | release id _ _ still books => exact h.of_marks still.buckets still.mem hc hd books
  | pop op rest head other still books =>
      refine h.of_queue still.buckets still.mem hc ?_ ?_ books
      · rw [head, addIds_cons_of_ne_add other]
      · intro p x hx
        rw [head]
        exact List.mem_cons_of_mem _ hx
  | dropDetached p id rest head _ still books =>
      exact h.of_drop still.buckets still.mem head (fun _ _ hx => hx)
        (fun x hx hin => Finset.mem_erase.mpr ⟨hx, hin⟩) books
  | dropCancelled p id rest head _ _ hb hm books =>
      exact h.of_drop hb hm head (fun x hx hin => Finset.mem_erase.mpr ⟨hx, hin⟩)
        (fun _ _ hx => hx) books
  | accept p id rest head hdet hcan moved books => exact h.of_accept head hdet hcan moved books
  | rearm id p newDur expiry hp moved books =>
      exact h.of_moved_on moved (h.held id p hp).2 (fun _ => rfl) (fun _ => rfl) books
  | unlink id p e _ hp moved books => exact h.of_moved_out moved hp books
  | fire p _ hp _ moved books => exact h.of_moved_out moved (h.known p hp).2 books
  | relink p _ hp _ moved books =>
      exact h.of_moved_on moved hp (fun _ => rfl) (fun _ => rfl) (l := w.log) books
  | pass _ still books => exact h.of_marks still.buckets still.mem hc hd books

end

theorem inv_new (clock : Clock) : Inv (TimerWheel.new clock) := by
  refine ⟨?_, ?_, ?_, ⟨∅, rfl, ?_⟩, ?_, rfl, le_rfl, ?_⟩
  · intro level slot pos p hp
    simp [TimerWheel.new] at hp
  · rintro p ⟨level, slot, hp⟩
    simp [TimerWheel.new] at hp
  · intro id p hp
    simp [TimerWheel.new] at hp
  · intro id
    simp [TimerWheel.new]
  · intro id p hp
    simp [TimerWheel.new] at hp
  · intro p id hp
    simp [TimerWheel.new] at hp

end Uvent.Timers
