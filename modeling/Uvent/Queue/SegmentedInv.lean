import Uvent.Queue.SegmentedQueue
import Mathlib.Data.Finset.Card

/-!
# What holds of the shared state

The two counters of a segment say which of its positions are claimed; a claimed
position is used once.  The operations on the shared state are taken one by one:
each keeps this, and each changes only what its thread may change.
-/

namespace Uvent.Queue.Segmented

variable {α : Type}

def CellOk : Fate α → CellState → Option α → List (Nat × Option α) → Option Nat → Prop
  | .free, state, _, got, _ => state = .empty ∧ got = []
  | .burnt, state, _, got, _ => state ≠ .full ∧ got = []
  | .put _ _ v, state, storage, got, taker =>
      state ≠ .dead ∧ (state = .full → got = [] → storage = some v) ∧
        (got = [] ∨ ∃ c, got = [(c, some v)] ∧ taker = some c ∧ state = .full)

structure SegOk (size : Nat) (seg : Segment α) : Prop where
  claimed : ∀ i, seg.fate i = .free ↔ seg.enqPos ≤ i ∨ size ≤ i
  taken : ∀ i, seg.taker i = none ↔ seg.deqPos ≤ i ∨ size ≤ i
  cell : ∀ i, CellOk (seg.fate i) (seg.state i) (seg.storage i) (seg.got i) (seg.taker i)

def Before (history : List Event) (x y : Nat) : Prop :=
  ∃ later earlier, history = later ++ .called y :: earlier ∧ .returned x ∈ earlier

structure PutOk (size : Nat) (q : Chain α) (k i producer op : Nat) : Prop where
  issued : op < q.opCount
  runner : q.runner op = producer
  born : q.born op ≤ k * size + i
  behind : .returned op ∈ q.history → k ≤ q.tail
  ordered : ∀ y, Before q.history op y → k * size + i < q.born y

structure Shared (size : Nat) (q : Chain α) : Prop where
  tail_le : q.tail ≤ q.last
  last_le : q.last ≤ q.tail + 1
  head_le : q.head ≤ q.last
  filled : ∀ k, k < q.last → size ≤ (q.segs k).enqPos
  passed : ∀ k, k < q.head → size ≤ (q.segs k).deqPos
  unlinked : ∀ k, q.last < k → q.segs k = .new
  seg : ∀ k, SegOk size (q.segs k)
  put : ∀ k i t op v, (q.segs k).fate i = .put t op v → PutOk size q k i t op
  known : ∀ op, .called op ∈ q.history ∨ .returned op ∈ q.history → op < q.opCount
  done : ∀ op, .returned op ∈ q.history → q.sent op = q.args op

/-! ## What a thread may do -/

structure SegStep (t : Nat) (seg seg' : Segment α) : Prop where
  enq_le : seg.enqPos ≤ seg'.enqPos
  deq_le : seg.deqPos ≤ seg'.deqPos
  fate : ∀ i, seg'.fate i = seg.fate i ∨
    (seg.fate i = .free ∧ (seg'.fate i = .burnt ∨ ∃ op v, seg'.fate i = .put t op v))
  taker : ∀ i, seg'.taker i = seg.taker i ∨ (seg.taker i = none ∧ seg'.taker i = some t)
  state : ∀ i, seg'.state i = seg.state i ∨
    (∃ op v, seg'.fate i = .put t op v ∧ seg'.state i = .full) ∨ seg.fate i = .burnt
  got : ∀ i, seg'.got i = seg.got i ∨ seg.taker i = some t

structure Guarantee (t : Nat) (q q' : Chain α) : Prop where
  tail_le : q.tail ≤ q'.tail
  last_le : q.last ≤ q'.last
  segs : ∀ k, SegStep t (q.segs k) (q'.segs k)
  opCount_le : q.opCount ≤ q'.opCount
  runner : ∀ op, op < q.opCount → q'.runner op = q.runner op
  args : ∀ op, op < q.opCount → q'.args op = q.args op
  born : ∀ op, op < q.opCount → q'.born op = q.born op
  sent : ∀ op, op < q.opCount → q'.sent op = q.sent op ∨ q.runner op = t
  returned : ∀ op, .returned op ∈ q'.history → .returned op ∈ q.history ∨ q.runner op = t

theorem SegStep.refl (t : Nat) (seg : Segment α) : SegStep t seg seg :=
  ⟨le_rfl, le_rfl, fun _ => .inl rfl, fun _ => .inl rfl, fun _ => .inl rfl, fun _ => .inl rfl⟩

theorem Guarantee.refl (t : Nat) (q : Chain α) : Guarantee t q q :=
  ⟨le_rfl, le_rfl, fun _ => .refl t _, le_rfl, fun _ _ => rfl, fun _ _ => rfl, fun _ _ => rfl,
    fun _ _ => .inl rfl, fun _ h => .inl h⟩

section Segments

variable {size t s op : Nat} {q : Chain α} {f : Segment α → Segment α}

@[simp] theorem modifySeg_self : (q.modifySeg s f).segs s = f (q.segs s) :=
  Function.update_self ..

theorem modifySeg_of_ne {k : Nat} (h : k ≠ s) : (q.modifySeg s f).segs k = q.segs k :=
  Function.update_of_ne h ..

theorem guarantee_modifySeg (h : SegStep t (q.segs s) (f (q.segs s))) :
    Guarantee t q (q.modifySeg s f) := by
  refine ⟨le_rfl, le_rfl, ?_, le_rfl, fun _ _ => rfl, fun _ _ => rfl, fun _ _ => rfl,
    fun _ _ => .inl rfl, fun _ h => .inl h⟩
  intro k
  by_cases hk : k = s
  · subst hk
    rw [modifySeg_self]
    exact h
  · rw [modifySeg_of_ne hk]
    exact .refl t _

/-- One linked segment changes; the positions claimed anew belong to a call that
may claim them. -/
theorem Shared.modifySeg (h : Shared size q) (hs : s ≤ q.last) (hok : SegOk size (f (q.segs s)))
    (hstep : SegStep t (q.segs s) (f (q.segs s)))
    (hput : ∀ i op v, (q.segs s).fate i = .free → (f (q.segs s)).fate i = .put t op v →
      PutOk size q s i t op) : Shared size (q.modifySeg s f) := by
  refine ⟨h.tail_le, h.last_le, h.head_le, ?_, ?_, ?_, ?_, ?_, h.known, h.done⟩
  · intro k hk
    by_cases hks : k = s
    · subst hks
      rw [modifySeg_self]
      exact (h.filled k hk).trans hstep.enq_le
    · rw [modifySeg_of_ne hks]
      exact h.filled k hk
  · intro k hk
    by_cases hks : k = s
    · subst hks
      rw [modifySeg_self]
      exact (h.passed k hk).trans hstep.deq_le
    · rw [modifySeg_of_ne hks]
      exact h.passed k hk
  · intro k hk
    have hlast : q.last < k := hk
    rw [modifySeg_of_ne (by omega)]
    exact h.unlinked k hk
  · intro k
    by_cases hks : k = s
    · subst hks
      rw [modifySeg_self]
      exact hok
    · rw [modifySeg_of_ne hks]
      exact h.seg k
  · intro k i t' op v hfate
    have hold : PutOk size q k i t' op := by
      by_cases hks : k = s
      · subst hks
        rw [modifySeg_self] at hfate
        rcases hstep.fate i with hsame | ⟨hfree, hburnt | ⟨op', v', hnew⟩⟩
        · exact h.put k i t' op v (hsame.symm.trans hfate)
        · rw [hburnt] at hfate
          simp at hfate
        · obtain ⟨rfl, rfl, rfl⟩ := Fate.put.inj (hnew.symm.trans hfate)
          exact hput i _ _ hfree hnew
      · rw [modifySeg_of_ne hks] at hfate
        exact h.put k i t' op v hfate
    exact ⟨hold.issued, hold.runner, hold.born, hold.behind, hold.ordered⟩

end Segments

/-! ## Producers -/

section Producers

variable {size t s op : Nat} {q : Chain α} {seg : Segment α}

structure Active (t : Nat) (q : Chain α) (op : Nat) : Prop where
  issued : op < q.opCount
  runner : q.runner op = t
  running : .returned op ∉ q.history

theorem Before.returned {history : List Event} {x y : Nat} (h : Before history x y) :
    .returned x ∈ history := by
  obtain ⟨later, earlier, rfl, hmem⟩ := h
  exact List.mem_append_right _ (List.mem_cons_of_mem _ hmem)

theorem Active.putOk (h : Active t q op) {k i : Nat} (hborn : q.born op ≤ k * size + i) :
    PutOk size q k i t op :=
  ⟨h.issued, h.runner, hborn, fun hret => absurd hret h.running,
    fun _ hbefore => absurd hbefore.returned h.running⟩

theorem Guarantee.send {q' : Chain α} (h : Guarantee t q q') (hactive : Active t q op)
    (vs : List α) : Guarantee t q (q'.send op vs) := by
  refine ⟨h.tail_le, h.last_le, h.segs, h.opCount_le, h.runner, h.args, h.born, ?_, h.returned⟩
  intro x hx
  by_cases hxop : x = op
  · exact .inr (hxop ▸ hactive.runner)
  · have hsame : (q'.send op vs).sent x = q'.sent x := Function.update_of_ne hxop ..
    rw [hsame]
    exact h.sent x hx

theorem Shared.send (h : Shared size q) (hactive : Active t q op) (vs : List α) :
    Shared size (q.send op vs) := by
  refine ⟨h.tail_le, h.last_le, h.head_le, h.filled, h.passed, h.unlinked, h.seg, ?_, h.known, ?_⟩
  · intro k i t' op' v hfate
    have hput := h.put k i t' op' v hfate
    exact ⟨hput.issued, hput.runner, hput.born, hput.behind, hput.ordered⟩
  · intro x hx
    have hne : x ≠ op := by
      rintro rfl
      exact hactive.running hx
    exact (Function.update_of_ne hne ..).trans (h.done x hx)

/-- A position of the segment is claimed for an element, or as it was. -/
theorem claimCells_fate (h : SegOk size seg) (t op : Nat) (vs : List α) (i : Nat) :
    ((seg.claimCells size t op vs).fate i = seg.fate i ∧
        (seg.fate i = .free → seg.enqPos + vs.length ≤ i ∨ size ≤ i)) ∨
      ∃ v, vs[i - seg.enqPos]? = some v ∧ seg.enqPos ≤ i ∧ i < size ∧ seg.fate i = .free ∧
        (seg.claimCells size t op vs).fate i = .put t op v := by
  unfold Segment.claimCells
  dsimp only
  by_cases hin : seg.enqPos ≤ i ∧ i < size
  · rw [if_pos hin]
    have hfree : seg.fate i = .free := (h.claimed i).mpr (.inl hin.1)
    cases hv : vs[i - seg.enqPos]? with
    | some v => exact .inr ⟨v, rfl, hin.1, hin.2, hfree, rfl⟩
    | none =>
        rw [List.getElem?_eq_none_iff] at hv
        exact .inl ⟨rfl, fun _ => .inl (by omega)⟩
  · rw [if_neg hin]
    refine .inl ⟨rfl, fun hfree => ?_⟩
    rcases (h.claimed i).mp hfree with hle | hle
    · exact .inr (by omega)
    · exact .inr hle

theorem SegOk.claimCells (h : SegOk size seg) (t op : Nat) (vs : List α) :
    SegOk size (seg.claimCells size t op vs) := by
  refine ⟨?_, h.taken, ?_⟩
  · intro i
    have henq : (seg.claimCells size t op vs).enqPos = seg.enqPos + vs.length := rfl
    rw [henq]
    rcases claimCells_fate h t op vs i with ⟨hsame, hfree⟩ | ⟨v, hv, hle, hlt, -, hput⟩
    · rw [hsame]
      refine ⟨hfree, fun hout => (h.claimed i).mpr ?_⟩
      omega
    · rw [hput]
      have hlen := (List.getElem?_eq_some_iff.mp hv).1
      exact iff_of_false (by simp) (by omega)
  · intro i
    have hcell := h.cell i
    rcases claimCells_fate h t op vs i with ⟨hsame, -⟩ | ⟨v, -, -, -, hfree, hput⟩
    · rw [hsame]
      exact hcell
    · rw [hfree] at hcell
      rw [hput]
      have hempty : (seg.claimCells size t op vs).state i = .empty := hcell.1
      rw [hempty]
      exact ⟨by simp, by simp, .inl hcell.2⟩

theorem segStep_claimCells (h : SegOk size seg) (t op : Nat) (vs : List α) :
    SegStep t seg (seg.claimCells size t op vs) := by
  refine ⟨Nat.le_add_right _ _, le_rfl, ?_, fun _ => .inl rfl, fun _ => .inl rfl,
    fun _ => .inl rfl⟩
  intro i
  rcases claimCells_fate h t op vs i with ⟨hsame, -⟩ | ⟨v, -, -, -, hfree, hput⟩
  · exact .inl hsame
  · exact .inr ⟨hfree, .inr ⟨op, v, hput⟩⟩

theorem Shared.claimCells (h : Shared size q) (hs : s ≤ q.last) (hactive : Active t q op)
    (hborn : q.born op ≤ s * size + min (q.segs s).enqPos size) (vs : List α) :
    Shared size (q.claimCells size t op s vs) := by
  have hseg := h.seg s
  have hmodify : Shared size (q.modifySeg s (Segment.claimCells size t op vs)) := by
    refine h.modifySeg hs (hseg.claimCells t op vs) (segStep_claimCells hseg t op vs) ?_
    intro i op' v hfree hfate
    rcases claimCells_fate hseg t op vs i with ⟨hsame, -⟩ | ⟨v', -, hle, hlt, -, hput⟩
    · rw [hsame, hfree] at hfate
      simp at hfate
    · obtain ⟨-, rfl, -⟩ := Fate.put.inj (hput.symm.trans hfate)
      exact hactive.putOk (by omega)
  have hactive' : Active t (q.modifySeg s (Segment.claimCells size t op vs)) op :=
    ⟨hactive.issued, hactive.runner, hactive.running⟩
  exact hmodify.send hactive' _

theorem guarantee_claimCells (h : Shared size q) (hactive : Active t q op) (s : Nat)
    (vs : List α) : Guarantee t q (q.claimCells size t op s vs) :=
  (guarantee_modifySeg (segStep_claimCells (h.seg s) t op vs)).send hactive _

theorem SegOk.publishCell (h : SegOk size seg) {i : Nat} {v : α}
    (hfate : seg.fate i = .put t op v) (hempty : seg.state i = .empty) :
    SegOk size (seg.publishCell i v) := by
  refine ⟨h.claimed, h.taken, ?_⟩
  intro j
  have hcell := h.cell j
  by_cases hj : j = i
  · subst hj
    have hgot : seg.got j = [] := by
      rw [hfate] at hcell
      rcases hcell.2.2 with hnone | ⟨c, -, -, hfull⟩
      · exact hnone
      · rw [hempty] at hfull
        simp at hfull
    have hfate' : (seg.publishCell j v).fate j = .put t op v := hfate
    have hstate : (seg.publishCell j v).state j = .full := Function.update_self ..
    have hstorage : (seg.publishCell j v).storage j = some v := Function.update_self ..
    rw [hfate', hstate, hstorage]
    exact ⟨by simp, fun _ _ => rfl, .inl hgot⟩
  · have hstate : (seg.publishCell i v).state j = seg.state j := Function.update_of_ne hj ..
    have hstorage : (seg.publishCell i v).storage j = seg.storage j := Function.update_of_ne hj ..
    rw [hstate, hstorage]
    exact hcell

theorem segStep_publishCell {i : Nat} {v : α} (hfate : seg.fate i = .put t op v) :
    SegStep t seg (seg.publishCell i v) := by
  refine ⟨le_rfl, le_rfl, fun _ => .inl rfl, fun _ => .inl rfl, ?_, fun _ => .inl rfl⟩
  intro j
  by_cases hj : j = i
  · subst hj
    exact .inr (.inl ⟨op, v, hfate, Function.update_self ..⟩)
  · exact .inl (Function.update_of_ne hj ..)

theorem Shared.publishCell (h : Shared size q) (hs : s ≤ q.last) {i : Nat} {v : α}
    (hfate : (q.segs s).fate i = .put t op v) (hempty : (q.segs s).state i = .empty) :
    Shared size (q.modifySeg s (.publishCell i v)) := by
  refine h.modifySeg hs ((h.seg s).publishCell hfate hempty) (segStep_publishCell hfate) ?_
  intro j op' v' hfree hput
  have hsame : ((q.segs s).publishCell i v).fate j = (q.segs s).fate j := rfl
  rw [hsame, hfree] at hput
  simp at hput

theorem segOk_new : SegOk size (Segment.new : Segment α) :=
  ⟨fun i => by simp [Segment.new], fun i => by simp [Segment.new],
    fun i => ⟨rfl, rfl⟩⟩

theorem segOk_freshSegment (hsize : 0 < size) (t op : Nat) (carried : Option α) :
    SegOk size (freshSegment t op carried) := by
  cases carried with
  | none => exact segOk_new
  | some v =>
      refine ⟨?_, fun i => by simp [freshSegment, Segment.new], ?_⟩
      · intro i
        by_cases hi : i = 0
        · subst hi
          simp [freshSegment]
          omega
        · simp [freshSegment, hi]
          omega
      · intro i
        by_cases hi : i = 0
        · subst hi
          simp [freshSegment, Segment.new, CellOk]
        · simp [freshSegment, Segment.new, CellOk, hi]

theorem segStep_freshSegment (t op : Nat) (carried : Option α) :
    SegStep t .new (freshSegment t op carried) := by
  cases carried with
  | none => exact .refl t _
  | some v =>
      refine ⟨Nat.zero_le _, le_rfl, ?_, fun _ => .inl rfl, ?_, fun _ => .inl rfl⟩
      · intro i
        by_cases hi : i = 0
        · subst hi
          exact .inr ⟨rfl, .inr ⟨op, v, rfl⟩⟩
        · exact .inl (by simp [freshSegment, Segment.new, hi])
      · intro i
        by_cases hi : i = 0
        · subst hi
          exact .inr (.inl ⟨op, v, rfl, rfl⟩)
        · exact .inl (by simp [freshSegment, Segment.new, hi])

theorem freshSegment_fate {carried : Option α} {i t' op' : Nat} {v : α}
    (h : (freshSegment t op carried).fate i = .put t' op' v) :
    i = 0 ∧ t' = t ∧ op' = op ∧ carried = some v := by
  cases carried with
  | none => simp [freshSegment, Segment.new] at h
  | some u =>
      by_cases hi : i = 0
      · subst hi
        obtain ⟨rfl, rfl, rfl⟩ := Fate.put.inj h
        exact ⟨rfl, rfl, rfl, rfl⟩
      · simp [freshSegment, hi] at h

/-- A fresh segment is linked behind a full one. -/
theorem Shared.append (h : Shared size q) (hsize : 0 < size) (hactive : Active t q op)
    (hs : s = q.last) (htail : s ≤ q.tail) (hfull : size ≤ (q.segs s).enqPos)
    (hborn : q.born op ≤ s * size + size) (carried : Option α) :
    Shared size (q.append op s (freshSegment t op carried)) := by
  have htail_le := h.tail_le
  have hnext : (s + 1) * size = s * size + size := Nat.succ_mul s size
  have hnew : ∀ k, k ≠ s + 1 →
      (q.append op s (freshSegment t op carried)).segs k = q.segs k := by
    intro k hk
    exact Function.update_of_ne hk ..
  have hself : (q.append op s (freshSegment t op carried)).segs (s + 1) =
      freshSegment t op carried := Function.update_self ..
  refine ⟨?_, ?_, ?_, ?_, ?_, ?_, ?_, ?_, h.known, ?_⟩
  · exact (show q.tail ≤ s + 1 by omega)
  · exact (show s + 1 ≤ q.tail + 1 by omega)
  · have := h.head_le
    exact (show q.head ≤ s + 1 by omega)
  · intro k hk
    have hk' : k < s + 1 := hk
    rw [hnew k (by omega)]
    by_cases hks : k = s
    · rw [hks]
      exact hfull
    · exact h.filled k (by omega)
  · intro k hk
    have hk' : k < q.head := hk
    have := h.head_le
    rw [hnew k (by omega)]
    exact h.passed k hk
  · intro k hk
    have hk' : s + 1 < k := hk
    rw [hnew k (by omega)]
    exact h.unlinked k (by omega)
  · intro k
    by_cases hks : k = s + 1
    · rw [hks, hself]
      exact segOk_freshSegment hsize t op carried
    · rw [hnew k hks]
      exact h.seg k
  · intro k i t' op' v hfate
    have hput : PutOk size q k i t' op' := by
      by_cases hks : k = s + 1
      · subst hks
        rw [hself] at hfate
        obtain ⟨rfl, rfl, rfl, -⟩ := freshSegment_fate hfate
        exact hactive.putOk (by omega)
      · rw [hnew k hks] at hfate
        exact h.put k i t' op' v hfate
    exact ⟨hput.issued, hput.runner, hput.born, hput.behind, hput.ordered⟩
  · intro x hx
    have hne : x ≠ op := by
      rintro rfl
      exact hactive.running hx
    exact (Function.update_of_ne hne ..).trans (h.done x hx)

theorem guarantee_append (h : Shared size q) (hactive : Active t q op) (hs : s = q.last)
    (carried : Option α) : Guarantee t q (q.append op s (freshSegment t op carried)) := by
  have hlink : Guarantee t q (q.modifySeg (s + 1) fun _ => freshSegment t op carried) := by
    apply guarantee_modifySeg
    rw [h.unlinked (s + 1) (by omega)]
    exact segStep_freshSegment t op carried
  have hsent := hlink.send hactive ((freshSegment t op carried).storage 0).toList
  refine ⟨hsent.tail_le, ?_, hsent.segs, hsent.opCount_le, hsent.runner, hsent.args, hsent.born,
    hsent.sent, hsent.returned⟩
  exact (show q.last ≤ s + 1 by omega)

theorem swingTail_tail (q : Chain α) (s : Nat) :
    (q.swingTail s).tail = if q.tail = s then s + 1 else q.tail := by
  unfold Chain.swingTail
  split <;> rfl

theorem swingTail_eq (q : Chain α) (s : Nat) :
    q.swingTail s = { q with tail := (q.swingTail s).tail } := by
  unfold Chain.swingTail
  split <;> rfl

theorem le_swingTail (q : Chain α) (s : Nat) : q.tail ≤ (q.swingTail s).tail := by
  rw [swingTail_tail]
  split <;> omega

theorem Shared.setTail (h : Shared size q) {tail : Nat} (hge : q.tail ≤ tail)
    (hle : tail ≤ q.last) : Shared size { q with tail := tail } := by
  have hlast := h.last_le
  refine ⟨hle, (show q.last ≤ tail + 1 by omega), h.head_le, h.filled, h.passed, h.unlinked,
    h.seg, ?_, h.known, h.done⟩
  intro k i t op v hfate
  have hput := h.put k i t op v hfate
  exact ⟨hput.issued, hput.runner, hput.born, fun hret => (hput.behind hret).trans hge,
    hput.ordered⟩

theorem Shared.swingTail (h : Shared size q) (hs : s < q.last) : Shared size (q.swingTail s) := by
  rw [swingTail_eq]
  refine h.setTail (le_swingTail q s) ?_
  have := h.tail_le
  rw [swingTail_tail]
  split <;> omega

theorem guarantee_swingTail (q : Chain α) (t s : Nat) : Guarantee t q (q.swingTail s) := by
  rw [swingTail_eq]
  exact ⟨le_swingTail q s, le_rfl, fun _ => .refl t _, le_rfl, fun _ _ => rfl, fun _ _ => rfl,
    fun _ _ => rfl, fun _ _ => .inl rfl, fun _ h => .inl h⟩

end Producers

/-! ## Calls -/

section Calls

variable {size t op : Nat} {q : Chain α}

/-- Every claimed position of a linked segment lies below the first one a new
call can get, if its segment is not past the tail. -/
theorem Shared.lt_low (h : Shared size q) {k i t' op' : Nat} {v : α}
    (hfate : (q.segs k).fate i = .put t' op' v) (hk : k ≤ q.tail) :
    k * size + i < q.low size := by
  have hclaimed : ¬((q.segs k).enqPos ≤ i ∨ size ≤ i) := by
    rw [← (h.seg k).claimed i, hfate]
    simp
  unfold Chain.low
  rcases Nat.lt_or_eq_of_le hk with hlt | rfl
  · have hmul : (k + 1) * size ≤ q.tail * size := Nat.mul_le_mul_right size hlt
    rw [Nat.succ_mul] at hmul
    omega
  · omega

theorem before_called {history : List Event} {x y z : Nat} :
    Before (.called z :: history) x y ↔ Before history x y ∨ (y = z ∧ .returned x ∈ history) := by
  constructor
  · rintro ⟨later, earlier, hsplit, hmem⟩
    cases later with
    | nil =>
        obtain ⟨hhead, rfl⟩ := List.cons_eq_cons.mp hsplit
        exact .inr ⟨(Event.called.inj hhead).symm, hmem⟩
    | cons e later =>
        obtain ⟨-, rfl⟩ := List.cons_eq_cons.mp hsplit
        exact .inl ⟨later, earlier, rfl, hmem⟩
  · rintro (⟨later, earlier, rfl, hmem⟩ | ⟨rfl, hmem⟩)
    · exact ⟨.called z :: later, earlier, rfl, hmem⟩
    · exact ⟨[], history, rfl, hmem⟩

theorem before_returned {history : List Event} {x y z : Nat} :
    Before (.returned z :: history) x y ↔ Before history x y := by
  constructor
  · rintro ⟨later, earlier, hsplit, hmem⟩
    cases later with
    | nil =>
        have hhead := (List.cons_eq_cons.mp hsplit).1
        simp at hhead
    | cons e later =>
        obtain ⟨-, rfl⟩ := List.cons_eq_cons.mp hsplit
        exact ⟨later, earlier, rfl, hmem⟩
  · rintro ⟨later, earlier, rfl, hmem⟩
    exact ⟨.returned z :: later, earlier, rfl, hmem⟩

theorem Shared.begin (h : Shared size q) (t : Nat) (vs : List α) :
    Shared size (q.begin size t vs) := by
  refine ⟨h.tail_le, h.last_le, h.head_le, h.filled, h.passed, h.unlinked, h.seg, ?_, ?_, ?_⟩
  · intro k i t' op' v hfate
    have hfate' : (q.segs k).fate i = .put t' op' v := hfate
    have hput := h.put k i t' op' v hfate'
    have hne : op' ≠ q.opCount := Nat.ne_of_lt hput.issued
    refine ⟨Nat.lt_succ_of_lt hput.issued, ?_, ?_, ?_, ?_⟩
    · exact (Function.update_of_ne hne ..).trans hput.runner
    · have hborn : (q.begin size t vs).born op' = q.born op' := Function.update_of_ne hne ..
      rw [hborn]
      exact hput.born
    · intro hret
      exact hput.behind (by simpa [Chain.begin] using hret)
    · intro y hbefore
      rcases before_called.mp hbefore with hold | ⟨rfl, hret⟩
      · have hy : y ≠ q.opCount := by
          obtain ⟨later, earlier, hsplit, -⟩ := hold
          have := h.known y (.inl (by rw [hsplit]; simp))
          omega
        have hborn : (q.begin size t vs).born y = q.born y := Function.update_of_ne hy ..
        rw [hborn]
        exact hput.ordered y hold
      · have hborn : (q.begin size t vs).born q.opCount = q.low size := Function.update_self ..
        rw [hborn]
        exact h.lt_low hfate' (hput.behind hret)
  · intro x hx
    have hcases : x = q.opCount ∨ .called x ∈ q.history ∨ .returned x ∈ q.history := by
      rcases hx with hcalled | hreturned
      · rcases List.mem_cons.mp hcalled with heq | hold
        · exact .inl (Event.called.inj heq)
        · exact .inr (.inl hold)
      · exact .inr (.inr (by simpa [Chain.begin] using hreturned))
    rcases hcases with rfl | hold
    · exact Nat.lt_succ_self _
    · exact Nat.lt_succ_of_lt (h.known x hold)
  · intro x hx
    have hold : .returned x ∈ q.history := by simpa [Chain.begin] using hx
    have hne : x ≠ q.opCount := Nat.ne_of_lt (h.known x (.inr hold))
    have hsent : (q.begin size t vs).sent x = q.sent x := Function.update_of_ne hne ..
    have hargs : (q.begin size t vs).args x = q.args x := Function.update_of_ne hne ..
    rw [hsent, hargs]
    exact h.done x hold

theorem guarantee_begin (q : Chain α) (t : Nat) (vs : List α) :
    Guarantee t q (q.begin size t vs) := by
  have hne : ∀ x, x < q.opCount → x ≠ q.opCount := fun x hx => Nat.ne_of_lt hx
  refine ⟨le_rfl, le_rfl, fun _ => .refl t _, Nat.le_succ _, ?_, ?_, ?_, ?_, ?_⟩
  · exact fun x hx => Function.update_of_ne (hne x hx) ..
  · exact fun x hx => Function.update_of_ne (hne x hx) ..
  · exact fun x hx => Function.update_of_ne (hne x hx) ..
  · exact fun x hx => .inl (Function.update_of_ne (hne x hx) ..)
  · intro x hx
    exact .inl (by simpa [Chain.begin] using hx)

/-- A call returns with all its elements at positions that are not past the
tail. -/
theorem Shared.finish (h : Shared size q) (hissued : op < q.opCount)
    (hsent : q.sent op = q.args op)
    (hbehind : ∀ k i t v, (q.segs k).fate i = .put t op v → k ≤ q.tail) :
    Shared size (q.finish op) := by
  refine ⟨h.tail_le, h.last_le, h.head_le, h.filled, h.passed, h.unlinked, h.seg, ?_, ?_, ?_⟩
  · intro k i t' op' v hfate
    have hput := h.put k i t' op' v hfate
    refine ⟨hput.issued, hput.runner, hput.born, ?_, ?_⟩
    · intro hret
      rcases List.mem_cons.mp hret with heq | hold
      · rw [Event.returned.inj heq] at hfate
        exact hbehind k i t' v hfate
      · exact hput.behind hold
    · exact fun y hbefore => hput.ordered y (before_returned.mp hbefore)
  · intro x hx
    rcases hx with hcalled | hreturned
    · exact h.known x (.inl (by simpa [Chain.finish] using hcalled))
    · rcases List.mem_cons.mp hreturned with heq | hold
      · rw [Event.returned.inj heq]
        exact hissued
      · exact h.known x (.inr hold)
  · intro x hx
    rcases List.mem_cons.mp hx with heq | hold
    · rw [Event.returned.inj heq]
      exact hsent
    · exact h.done x hold

theorem Guarantee.finish {q' : Chain α} (h : Guarantee t q q') (hrunner : q.runner op = t) :
    Guarantee t q (q'.finish op) := by
  refine ⟨h.tail_le, h.last_le, h.segs, h.opCount_le, h.runner, h.args, h.born, h.sent, ?_⟩
  intro x hx
  rcases List.mem_cons.mp hx with heq | hold
  · rw [Event.returned.inj heq]
    exact .inr hrunner
  · exact h.returned x hold

end Calls

/-! ## Consumers -/

section Consumers

variable {size t s : Nat} {q : Chain α} {seg : Segment α}

theorem Shared.consumer (h : Shared size q) (hs : s ≤ q.last) {f : Segment α → Segment α}
    (hok : SegOk size (f (q.segs s))) (hstep : SegStep t (q.segs s) (f (q.segs s)))
    (hfate : ∀ i t' op v, (f (q.segs s)).fate i = .put t' op v →
      (q.segs s).fate i = .put t' op v) : Shared size (q.modifySeg s f) := by
  refine h.modifySeg hs hok hstep ?_
  intro i op v hfree hput
  have hold := hfate i t op v hput
  rw [hfree] at hold
  simp at hold

theorem claimTaken_taker (h : SegOk size seg) (t n i : Nat) :
    ((seg.claimTaken size t n).taker i = seg.taker i ∧
        (seg.taker i = none → seg.deqPos + n ≤ i ∨ size ≤ i)) ∨
      (seg.deqPos ≤ i ∧ i < min (seg.deqPos + n) size ∧ seg.taker i = none ∧
        (seg.claimTaken size t n).taker i = some t) := by
  unfold Segment.claimTaken
  dsimp only
  by_cases hin : seg.deqPos ≤ i ∧ i < min (seg.deqPos + n) size
  · rw [if_pos hin]
    exact .inr ⟨hin.1, hin.2, (h.taken i).mpr (.inl hin.1), rfl⟩
  · rw [if_neg hin]
    refine .inl ⟨rfl, fun hnone => ?_⟩
    have := (h.taken i).mp hnone
    omega

theorem SegOk.claimTaken (h : SegOk size seg) (t n : Nat) :
    SegOk size (seg.claimTaken size t n) := by
  refine ⟨h.claimed, ?_, ?_⟩
  · intro i
    have hdeq : (seg.claimTaken size t n).deqPos = seg.deqPos + n := rfl
    rw [hdeq]
    rcases claimTaken_taker h t n i with ⟨hsame, hnone⟩ | ⟨hle, hlt, -, hnew⟩
    · rw [hsame]
      refine ⟨hnone, fun hout => (h.taken i).mpr ?_⟩
      omega
    · rw [hnew]
      exact iff_of_false (by simp) (by omega)
  · intro i
    have hcell := h.cell i
    rcases claimTaken_taker h t n i with ⟨hsame, -⟩ | ⟨-, -, hnone, hnew⟩
    · rw [hsame]
      exact hcell
    · -- nothing was moved out of a position nobody had claimed
      rw [hnone] at hcell
      rw [hnew]
      have hfate : (seg.claimTaken size t n).fate i = seg.fate i := rfl
      rw [hfate]
      cases hf : seg.fate i with
      | free =>
          rw [hf] at hcell
          exact hcell
      | burnt =>
          rw [hf] at hcell
          exact hcell
      | put producer op v =>
          rw [hf] at hcell
          refine ⟨hcell.1, hcell.2.1, ?_⟩
          rcases hcell.2.2 with hgot | ⟨c, -, habs, -⟩
          · exact .inl hgot
          · simp at habs

theorem segStep_claimTaken (h : SegOk size seg) (t n : Nat) :
    SegStep t seg (seg.claimTaken size t n) := by
  refine ⟨le_rfl, Nat.le_add_right _ _, fun _ => .inl rfl, ?_, fun _ => .inl rfl,
    fun _ => .inl rfl⟩
  intro i
  rcases claimTaken_taker h t n i with ⟨hsame, -⟩ | ⟨-, -, hnone, hnew⟩
  · exact .inl hsame
  · exact .inr ⟨hnone, hnew⟩

theorem Shared.claimTaken (h : Shared size q) (hs : s ≤ q.last) (t n : Nat) :
    Shared size (q.modifySeg s (.claimTaken size t n)) :=
  h.consumer hs ((h.seg s).claimTaken t n) (segStep_claimTaken (h.seg s) t n)
    fun _ _ _ _ hput => hput

/-- Cells that no producer had claimed are closed. -/
theorem burnCells_fate (h : SegOk size seg) {e : Nat} (henq : seg.enqPos = e) (pos i : Nat) :
    ((seg.burnCells e pos).fate i = seg.fate i ∧ ¬(e ≤ i ∧ i ≤ pos)) ∨
      (e ≤ i ∧ i ≤ pos ∧ seg.fate i = .free ∧ (seg.burnCells e pos).fate i = .burnt) := by
  unfold Segment.burnCells
  dsimp only
  by_cases hin : e ≤ i ∧ i ≤ pos
  · rw [if_pos hin]
    exact .inr ⟨hin.1, hin.2, (h.claimed i).mpr (.inl (by omega)), rfl⟩
  · rw [if_neg hin]
    exact .inl ⟨rfl, hin⟩

theorem SegOk.burnCells (h : SegOk size seg) {e pos : Nat} (henq : seg.enqPos = e)
    (hle : e ≤ pos) (hpos : pos < size) : SegOk size (seg.burnCells e pos) := by
  refine ⟨?_, h.taken, ?_⟩
  · intro i
    have henq' : (seg.burnCells e pos).enqPos = pos + 1 := rfl
    rw [henq']
    rcases burnCells_fate h henq pos i with ⟨hsame, hout⟩ | ⟨hle', hlt, -, hburnt⟩
    · rw [hsame, h.claimed i]
      omega
    · rw [hburnt]
      exact iff_of_false (by simp) (by omega)
  · intro i
    have hcell := h.cell i
    rcases burnCells_fate h henq pos i with ⟨hsame, -⟩ | ⟨-, -, hfree, hburnt⟩
    · rw [hsame]
      exact hcell
    · rw [hfree] at hcell
      rw [hburnt]
      have hempty : (seg.burnCells e pos).state i = .empty := hcell.1
      rw [hempty]
      exact ⟨by simp, hcell.2⟩

theorem segStep_burnCells (h : SegOk size seg) {e pos : Nat} (henq : seg.enqPos = e)
    (hle : e ≤ pos) (t : Nat) : SegStep t seg (seg.burnCells e pos) := by
  refine ⟨(show seg.enqPos ≤ pos + 1 by omega), le_rfl, ?_, fun _ => .inl rfl,
    fun _ => .inl rfl, fun _ => .inl rfl⟩
  intro i
  rcases burnCells_fate h henq pos i with ⟨hsame, -⟩ | ⟨-, -, hfree, hburnt⟩
  · exact .inl hsame
  · exact .inr ⟨hfree, .inl hburnt⟩

theorem Shared.burnCells (h : Shared size q) (hs : s ≤ q.last) {e pos : Nat}
    (henq : (q.segs s).enqPos = e) (hle : e ≤ pos) (hpos : pos < size) (t : Nat) :
    Shared size (q.modifySeg s (.burnCells e pos)) := by
  refine h.consumer hs ((h.seg s).burnCells henq hle hpos)
    (segStep_burnCells (h.seg s) henq hle t) ?_
  intro i t' op v hput
  rcases burnCells_fate (h.seg s) henq pos i with ⟨hsame, -⟩ | ⟨-, -, -, hburnt⟩
  · exact hsame.symm.trans hput
  · rw [hburnt] at hput
    simp at hput

theorem SegOk.markDead (h : SegOk size seg) {j : Nat} (hburnt : seg.fate j = .burnt) :
    SegOk size (seg.markDead j) := by
  refine ⟨h.claimed, h.taken, ?_⟩
  intro i
  have hcell := h.cell i
  by_cases hi : i = j
  · subst hi
    have hstate : (seg.markDead i).state i = .dead := Function.update_self ..
    have hfate : (seg.markDead i).fate i = .burnt := hburnt
    rw [hburnt] at hcell
    rw [hstate, hfate]
    exact ⟨by simp, hcell.2⟩
  · have hstate : (seg.markDead j).state i = seg.state i := Function.update_of_ne hi ..
    rw [hstate]
    exact hcell

theorem segStep_markDead {j : Nat} (hburnt : seg.fate j = .burnt) (t : Nat) :
    SegStep t seg (seg.markDead j) := by
  refine ⟨le_rfl, le_rfl, fun _ => .inl rfl, fun _ => .inl rfl, ?_, fun _ => .inl rfl⟩
  intro i
  by_cases hi : i = j
  · subst hi
    exact .inr (.inr hburnt)
  · exact .inl (Function.update_of_ne hi ..)

theorem Shared.markDead (h : Shared size q) (hs : s ≤ q.last) {j : Nat}
    (hburnt : (q.segs s).fate j = .burnt) (t : Nat) :
    Shared size (q.modifySeg s (.markDead j)) :=
  h.consumer hs ((h.seg s).markDead hburnt) (segStep_markDead hburnt t)
    fun _ _ _ _ hput => hput

/-- A full cell that nothing was moved out of holds the element it was claimed
for. -/
theorem SegOk.full_cell (h : SegOk size seg) {i : Nat} (hfull : seg.state i = .full)
    (hgot : seg.got i = []) : ∃ producer op v, seg.fate i = .put producer op v ∧
      seg.storage i = some v := by
  have hcell := h.cell i
  cases hfate : seg.fate i with
  | free =>
      rw [hfate] at hcell
      have := hfull.symm.trans hcell.1
      simp at this
  | burnt =>
      rw [hfate] at hcell
      exact absurd hfull hcell.1
  | put producer op v =>
      rw [hfate] at hcell
      exact ⟨producer, op, v, rfl, hcell.2.1 hfull hgot⟩

theorem SegOk.consumeCell (h : SegOk size seg) {i : Nat} (htaker : seg.taker i = some t)
    (hfull : seg.state i = .full) (hgot : seg.got i = []) : SegOk size (seg.consumeCell t i) := by
  obtain ⟨producer, op, v, hfate, hstorage⟩ := h.full_cell hfull hgot
  refine ⟨h.claimed, h.taken, ?_⟩
  intro j
  have hcell := h.cell j
  by_cases hj : j = i
  · subst hj
    have hgot' : (seg.consumeCell t j).got j = [(t, some v)] := by
      refine (Function.update_self ..).trans ?_
      rw [hstorage, hgot]
    have hfate' : (seg.consumeCell t j).fate j = .put producer op v := hfate
    have hstate : (seg.consumeCell t j).state j = .full := hfull
    rw [hgot', hfate', hstate]
    exact ⟨by simp, by simp, .inr ⟨t, rfl, htaker, rfl⟩⟩
  · have hgot' : (seg.consumeCell t i).got j = seg.got j := Function.update_of_ne hj ..
    have hstorage' : (seg.consumeCell t i).storage j = seg.storage j := Function.update_of_ne hj ..
    rw [hgot', hstorage']
    exact hcell

theorem segStep_consumeCell {i : Nat} (htaker : seg.taker i = some t) :
    SegStep t seg (seg.consumeCell t i) := by
  refine ⟨le_rfl, le_rfl, fun _ => .inl rfl, fun _ => .inl rfl, fun _ => .inl rfl, ?_⟩
  intro j
  by_cases hj : j = i
  · subst hj
    exact .inr htaker
  · exact .inl (Function.update_of_ne hj ..)

theorem Shared.consumeCell (h : Shared size q) (hs : s ≤ q.last) {i : Nat}
    (htaker : (q.segs s).taker i = some t) (hfull : (q.segs s).state i = .full)
    (hgot : (q.segs s).got i = []) : Shared size (q.modifySeg s (.consumeCell t i)) :=
  h.consumer hs ((h.seg s).consumeCell htaker hfull hgot) (segStep_consumeCell htaker)
    fun _ _ _ _ hput => hput

theorem Shared.swingHead (h : Shared size q) (hs : s < q.last)
    (hpassed : size ≤ (q.segs s).deqPos) : Shared size (q.swingHead s) := by
  unfold Chain.swingHead
  split
  · rename_i hhead
    refine ⟨h.tail_le, h.last_le, hs, h.filled, ?_, h.unlinked, h.seg, ?_, h.known, h.done⟩
    · intro k hk
      have hk' : k < s + 1 := hk
      by_cases hks : k = s
      · rw [hks]
        exact hpassed
      · exact h.passed k (by omega)
    · intro k i t op v hfate
      have hput := h.put k i t op v hfate
      exact ⟨hput.issued, hput.runner, hput.born, hput.behind, hput.ordered⟩
  · exact h

theorem guarantee_swingHead (q : Chain α) (t s : Nat) : Guarantee t q (q.swingHead s) := by
  unfold Chain.swingHead
  split
  · exact ⟨le_rfl, le_rfl, fun _ => .refl t _, le_rfl, fun _ _ => rfl, fun _ _ => rfl,
      fun _ _ => rfl, fun _ _ => .inl rfl, fun _ h => .inl h⟩
  · exact .refl t q

end Consumers

theorem shared_new {size : Nat} : Shared size (Chain.new : Chain α) := by
  refine ⟨le_rfl, Nat.zero_le _, le_rfl, ?_, ?_, fun _ _ => rfl, fun _ => segOk_new, ?_, ?_, ?_⟩
  · simp [Chain.new]
  · simp [Chain.new]
  · simp [Chain.new, Segment.new]
  · simp [Chain.new]
  · simp [Chain.new]

end Uvent.Queue.Segmented
