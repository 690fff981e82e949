import Mathlib.Data.List.Range
import Mathlib.Data.List.TakeDrop
import Mathlib.Logic.Function.Basic

/-!
# The segments of a multishot receive

`MultishotRecvOp` keeps the segments that wait in a ring of `kInlineSegs` places and behind it
in a vector; together they are a queue.  `consume_ms_recv` copies from its front.
-/

namespace Uvent.Net.Uring

/-- `off` is the prefix of the segment that is consumed. -/
structure Seg where
  len : Nat
  off : Nat
  bid : Nat
  deriving DecidableEq, Repr

def kInlineSegs : Nat := 16

structure SegQueue where
  segs : Nat → Seg
  head : Nat
  count : Nat
  spill : List Seg
  head_lt : head < kInlineSegs
  count_le : count ≤ kInlineSegs

namespace SegQueue

def new : SegQueue := ⟨fun _ => ⟨0, 0, 0⟩, 0, 0, [], by decide, by decide⟩

def hasData (q : SegQueue) : Bool := q.count != 0 || !q.spill.isEmpty

def push (q : SegQueue) (s : Seg) : SegQueue :=
  if h : q.count < kInlineSegs ∧ q.spill = [] then
    { q with
      segs := Function.update q.segs ((q.head + q.count) % kInlineSegs) s,
      count := q.count + 1,
      count_le := h.1 }
  else { q with spill := q.spill ++ [s] }

def front (q : SegQueue) : Option Seg :=
  if q.count ≠ 0 then some (q.segs q.head) else q.spill.head?

def setFront (q : SegQueue) (s : Seg) : SegQueue :=
  if q.count ≠ 0 then { q with segs := Function.update q.segs q.head s }
  else { q with spill := s :: q.spill.tail }

def popFront (q : SegQueue) : SegQueue :=
  if q.count ≠ 0 then
    { q with
      head := (q.head + 1) % kInlineSegs,
      count := q.count - 1,
      head_lt := Nat.mod_lt _ (by decide),
      count_le := Nat.le_trans (Nat.sub_le _ _) q.count_le }
  else { q with spill := q.spill.tail }

def toList (q : SegQueue) : List Seg :=
  (List.range q.count).map (fun i => q.segs ((q.head + i) % kInlineSegs)) ++ q.spill

variable {q : SegQueue} {s : Seg}

theorem hasData_iff : q.hasData = true ↔ q.toList ≠ [] := by
  unfold hasData toList
  simp only [bne_iff_ne, Bool.or_eq_true, Bool.not_eq_true', List.isEmpty_eq_false_iff, ne_eq,
    List.append_eq_nil_iff, List.map_eq_nil_iff, List.range_eq_nil]
  exact Decidable.not_and_iff_not_or_not.symm

theorem place_ne {i : Nat} (hi : i < q.count) (hcount : q.count < kInlineSegs) :
    (q.head + i) % kInlineSegs ≠ (q.head + q.count) % kInlineSegs := by
  unfold kInlineSegs at *
  omega

theorem push_toList (q : SegQueue) (s : Seg) : (q.push s).toList = q.toList ++ [s] := by
  unfold push
  split
  · rename_i h
    unfold toList
    dsimp only
    rw [h.2, List.append_nil, List.append_nil, List.range_succ, List.map_append]
    congr 1
    · apply List.map_congr_left
      intro i hi
      exact Function.update_of_ne (place_ne (List.mem_range.mp hi) h.1) ..
    · rw [List.map_singleton, Function.update_self]
  · exact (List.append_assoc ..).symm

theorem inline_cons (segs : Nat → Seg) (head : Nat) (n : Nat) (hhead : head < kInlineSegs) :
    (List.range (n + 1)).map (fun i => segs ((head + i) % kInlineSegs)) =
      segs head ::
        (List.range n).map (fun i => segs (((head + 1) % kInlineSegs + i) % kInlineSegs)) := by
  rw [List.range_succ_eq_map, List.map_cons, List.map_map, Nat.add_zero, Nat.mod_eq_of_lt hhead]
  congr 1
  apply List.map_congr_left
  intro i _
  show segs ((head + (i + 1)) % kInlineSegs) = _
  rw [Nat.mod_add_mod, Nat.add_assoc, Nat.add_comm 1 i]

theorem front_toList (q : SegQueue) : q.front = q.toList.head? := by
  unfold front toList
  split
  · rename_i h
    obtain ⟨n, hn⟩ := Nat.exists_eq_succ_of_ne_zero h
    rw [hn, Nat.succ_eq_add_one, inline_cons _ _ _ q.head_lt]
    rfl
  · rename_i h
    rw [Decidable.not_not.mp h]
    rfl

theorem popFront_toList (q : SegQueue) : q.popFront.toList = q.toList.tail := by
  unfold popFront
  split
  · rename_i h
    obtain ⟨n, hn⟩ := Nat.exists_eq_succ_of_ne_zero h
    unfold toList
    dsimp only
    rw [hn, Nat.succ_eq_add_one, inline_cons _ _ _ q.head_lt]
    rfl
  · rename_i h
    unfold toList
    dsimp only
    rw [Decidable.not_not.mp h]
    rfl

theorem setFront_toList {l : List Seg} {s' : Seg} (h : q.toList = s' :: l) :
    (q.setFront s).toList = s :: l := by
  unfold setFront
  split
  · rename_i hne
    obtain ⟨n, hn⟩ := Nat.exists_eq_succ_of_ne_zero hne
    unfold toList at h ⊢
    dsimp only
    rw [hn, Nat.succ_eq_add_one, inline_cons _ _ _ q.head_lt] at h ⊢
    rw [Function.update_self]
    have htail := congrArg List.tail h
    refine congrArg (List.cons s) ?_
    rw [← show _ = l from htail]
    show _ ++ q.spill = _ ++ q.spill
    congr 1
    apply List.map_congr_left
    intro i hi
    have hlt := List.mem_range.mp hi
    have hle := q.count_le
    have hhead := q.head_lt
    refine Function.update_of_ne ?_ ..
    rw [Nat.mod_add_mod]
    unfold kInlineSegs at *
    omega
  · rename_i hne
    have hzero := Decidable.not_not.mp hne
    unfold toList at h ⊢
    dsimp only
    rw [hzero] at h ⊢
    exact congrArg (fun l => s :: l.tail) (show q.spill = s' :: l from h)

end SegQueue

/-! ### Consuming -/

variable {α : Type}

/-- What is left to read of a segment; `base` are the contents of the buffers. -/
def Seg.bytes (base : Nat → List α) (s : Seg) : List α := ((base s.bid).take s.len).drop s.off

def segBytes (base : Nat → List α) (l : List Seg) : List α := l.flatMap (Seg.bytes base)

structure Seg.Live (base : Nat → List α) (s : Seg) : Prop where
  left : s.off < s.len
  stored : s.len ≤ (base s.bid).length

/-- The loop of `consume_ms_recv`, with `want` bytes to go: what is copied, the queue behind
it, and the buffers that are recycled. -/
def consumeLoop (base : Nat → List α) : Nat → Nat → SegQueue → List α × SegQueue × List Nat
  | 0, _, q => ([], q, [])
  | fuel + 1, want, q =>
      if want = 0 then ([], q, [])
      else
        match q.front with
        | none => ([], q, [])
        | some s =>
            let take := if s.len - s.off < want then s.len - s.off else want
            let copied := ((base s.bid).drop s.off).take take
            let s' := { s with off := s.off + take }
            if s'.off = s'.len then
              let (out, q', bids) := consumeLoop base fuel (want - take) (q.setFront s').popFront
              (copied ++ out, q', s.bid :: bids)
            else
              let (out, q', bids) := consumeLoop base fuel (want - take) (q.setFront s')
              (copied ++ out, q', bids)

/-- `consume_ms_recv`: every round but the last one takes a segment off the queue. -/
def consumeMsRecv (base : Nat → List α) (max : Nat) (q : SegQueue) :
    List α × SegQueue × List Nat :=
  consumeLoop base (q.toList.length + 1) max q

/-- What `consume_ms_recv` does to a queue: it delivers the first bytes, in order, and gives
back the buffers that are read to their end. -/
structure Consumes (base : Nat → List α) (l : List Seg) (want : Nat)
    (r : List α × SegQueue × List Nat) : Prop where
  out : r.1 = (segBytes base l).take want
  rest : segBytes base r.2.1.toList = (segBytes base l).drop want
  bids : r.2.2 ++ r.2.1.toList.map Seg.bid = l.map Seg.bid
  live : ∀ s ∈ r.2.1.toList, s.Live base

theorem Seg.bytes_length {base : Nat → List α} {s : Seg} (h : s.Live base) :
    (s.bytes base).length = s.len - s.off := by
  unfold Seg.bytes
  rw [List.length_drop, List.length_take, Nat.min_eq_left h.stored]

theorem segBytes_cons (base : Nat → List α) (s : Seg) (l : List Seg) :
    segBytes base (s :: l) = s.bytes base ++ segBytes base l := List.flatMap_cons

theorem segBytes_append (base : Nat → List α) (l l' : List Seg) :
    segBytes base (l ++ l') = segBytes base l ++ segBytes base l' := List.flatMap_append

theorem Seg.copied {base : Nat → List α} {s : Seg} {n : Nat} (hn : n ≤ s.len - s.off) :
    ((base s.bid).drop s.off).take n = (s.bytes base).take n := by
  unfold Seg.bytes
  rw [List.drop_take, List.take_take, Nat.min_eq_left hn]

theorem Seg.bytes_advance {base : Nat → List α} {s : Seg} {n : Nat} :
    Seg.bytes base { s with off := s.off + n } = (s.bytes base).drop n :=
  (List.drop_drop ..).symm

theorem consumeLoop_zero (base : Nat → List α) (fuel : Nat) (q : SegQueue) :
    consumeLoop base fuel 0 q = ([], q, []) := by
  cases fuel with
  | zero => rfl
  | succ fuel => exact if_pos rfl

theorem consumeLoop_spec (base : Nat → List α) (fuel want : Nat) (q : SegQueue)
    (hfuel : q.toList.length < fuel) (hlive : ∀ s ∈ q.toList, s.Live base) :
    Consumes base q.toList want (consumeLoop base fuel want q) := by
  induction fuel generalizing want q with
  | zero => exact absurd hfuel (Nat.not_lt_zero _)
  | succ fuel ih =>
      unfold consumeLoop
      split
      · rename_i hzero
        rw [hzero]
        exact ⟨rfl, rfl, rfl, hlive⟩
      · cases hl : q.toList with
        | nil =>
            have hfront : q.front = none := by rw [q.front_toList, hl]; rfl
            rw [hfront]
            refine ⟨?_, ?_, ?_, hlive⟩
            · exact List.take_nil.symm
            · rw [hl]
              exact List.drop_nil.symm
            · rw [hl]
              rfl
        | cons s l =>
            have hfront : q.front = some s := by rw [q.front_toList, hl]; rfl
            rw [hfront]
            dsimp only
            have hs := hlive s (by rw [hl]; exact List.mem_cons_self)
            have hrest : ∀ x ∈ l, x.Live base := fun x hx =>
              hlive x (by rw [hl]; exact List.mem_cons_of_mem _ hx)
            have hset : ∀ s', (q.setFront s').toList = s' :: l := fun s' =>
              SegQueue.setFront_toList hl
            rw [hl, List.length_cons] at hfuel
            by_cases hlt : s.len - s.off < want
            · -- the segment is read to its end
              rw [if_pos hlt]
              have hend : s.off + (s.len - s.off) = s.len := Nat.add_sub_cancel' (Nat.le_of_lt hs.left)
              rw [if_pos hend]
              have hpop : ((q.setFront { s with off := s.off + (s.len - s.off) }).popFront).toList =
                  l := by
                rw [SegQueue.popFront_toList, hset]
                rfl
              have hih := ih (want - (s.len - s.off))
                (q.setFront { s with off := s.off + (s.len - s.off) }).popFront
                (by rw [hpop]; omega) (by rw [hpop]; exact hrest)
              rw [hpop] at hih
              have hlen := Seg.bytes_length hs
              refine ⟨?_, ?_, ?_, hih.live⟩
              · show _ ++ _ = _
                rw [hih.out, Seg.copied (Nat.le_refl _), segBytes_cons, List.take_append, hlen,
                  List.take_of_length_le (Nat.le_of_eq hlen),
                  List.take_of_length_le (show (s.bytes base).length ≤ want by omega)]
              · show segBytes base _ = _
                rw [hih.rest, segBytes_cons, List.drop_append, hlen,
                  List.drop_of_length_le (show (s.bytes base).length ≤ want by omega),
                  List.nil_append]
              · show (s.bid :: _) ++ _ = _
                rw [List.cons_append, hih.bids, List.map_cons]
            · -- a part of it is left, and nothing more is wanted
              rw [if_neg hlt]
              have hle : want ≤ s.len - s.off := Nat.le_of_not_lt hlt
              have hlen := Seg.bytes_length hs
              rw [Nat.sub_self]
              simp only [consumeLoop_zero, List.append_nil]
              have hout : ((base s.bid).drop s.off).take want =
                  (segBytes base (s :: l)).take want := by
                rw [Seg.copied hle, segBytes_cons, List.take_append_of_le_length (hlen ▸ hle)]
              split
              · rename_i hend
                have hpop : ((q.setFront { s with off := s.off + want }).popFront).toList = l := by
                  rw [SegQueue.popFront_toList, hset]
                  rfl
                refine ⟨hout, ?_, ?_, ?_⟩
                · have hall : want = (s.bytes base).length := by
                    rw [hlen]
                    have hend' : s.off + want = s.len := hend
                    omega
                  show segBytes base (SegQueue.toList _) = _
                  rw [hpop, segBytes_cons, hall, List.drop_left]
                · show [s.bid] ++ (SegQueue.toList _).map Seg.bid = _
                  rw [hpop]
                  rfl
                · show ∀ x ∈ SegQueue.toList _, x.Live base
                  rw [hpop]
                  exact hrest
              · rename_i hpart
                refine ⟨hout, ?_, ?_, ?_⟩
                · show segBytes base (SegQueue.toList _) = _
                  rw [hset, segBytes_cons, segBytes_cons, Seg.bytes_advance,
                    List.drop_append_of_le_length (hlen ▸ hle)]
                · show [] ++ (SegQueue.toList _).map Seg.bid = _
                  rw [hset]
                  rfl
                · show ∀ x ∈ SegQueue.toList _, x.Live base
                  rw [hset]
                  intro x hx
                  rcases List.mem_cons.mp hx with rfl | hx
                  · refine ⟨?_, hs.stored⟩
                    have hpart' : s.off + want ≠ s.len := hpart
                    have hleft := hs.left
                    show s.off + want < s.len
                    omega
                  · exact hrest x hx

theorem consumeMsRecv_spec (base : Nat → List α) (max : Nat) (q : SegQueue)
    (hlive : ∀ s ∈ q.toList, s.Live base) :
    Consumes base q.toList max (consumeMsRecv base max q) :=
  consumeLoop_spec base _ max q (Nat.lt_succ_self _) hlive

end Uvent.Net.Uring
