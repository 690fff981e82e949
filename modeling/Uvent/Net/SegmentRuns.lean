import Mathlib.Data.List.Flatten
import Mathlib.Data.List.Infix
import Uvent.Net.MultishotOp

/-!
# Segments from a completion to the reader

The queue of one socket from its first completion until `destroy`: completions push segments,
calls of `consume_ms_recv` take from the front, and the drain in `destroy` gives back what is
left.  A log keeps what was pushed, copied out and recycled, in the order in which it was done.

The kernel writes to a buffer and names it in a completion only while it has it, that is, not
before it was recycled.
-/

namespace Uvent.Net.Uring

variable {α : Type}

inductive SegEvent (α : Type) where
  | push (bid : Nat) (bytes : List α)
  | copy (bytes : List α)
  | recycle (bid : Nat)
  | teardown
  deriving Repr

def SegEvent.pushed : SegEvent α → List (Nat × List α)
  | .push bid bytes => [(bid, bytes)]
  | _ => []

def SegEvent.copied : SegEvent α → List α
  | .copy bytes => bytes
  | _ => []

def SegEvent.recycled : SegEvent α → List Nat
  | .recycle bid => [bid]
  | _ => []

def pushes (log : List (SegEvent α)) : List (Nat × List α) := log.flatMap SegEvent.pushed

def copied (log : List (SegEvent α)) : List α := log.flatMap SegEvent.copied

def recycled (log : List (SegEvent α)) : List Nat := log.flatMap SegEvent.recycled

/-- The loop of `consume_ms_recv` with what it does in the order in which it does it. -/
def consumeLog (base : Nat → List α) : Nat → Nat → SegQueue → List (SegEvent α) × SegQueue
  | 0, _, q => ([], q)
  | fuel + 1, want, q =>
      if want = 0 then ([], q)
      else
        match q.front with
        | none => ([], q)
        | some s =>
            let take := if s.len - s.off < want then s.len - s.off else want
            let s' := { s with off := s.off + take }
            let read := .copy (((base s.bid).drop s.off).take take)
            if s'.off = s'.len then
              let (log, q') := consumeLog base fuel (want - take) (q.setFront s').popFront
              (read :: .recycle s.bid :: log, q')
            else
              let (log, q') := consumeLog base fuel (want - take) (q.setFront s')
              (read :: log, q')

def drainLog (q : SegQueue) : List (SegEvent α) × SegQueue :=
  match _h : q.front with
  | none => ([], q)
  | some s =>
      let (log, q') := drainLog q.popFront
      (.recycle s.bid :: log, q')
termination_by q.toList.length
decreasing_by
  rw [SegQueue.popFront_toList, List.length_tail]
  rw [SegQueue.front_toList] at _h
  exact Nat.sub_lt (List.length_pos_of_mem (List.mem_of_head? _h)) Nat.one_pos

structure SegState (α : Type) where
  queue : SegQueue
  base : Nat → List α
  log : List (SegEvent α)
  torn : Bool

namespace SegState

def new (base : Nat → List α) : SegState α := ⟨.new, base, [], false⟩

def held (s : SegState α) : List Nat := s.queue.toList.map Seg.bid

def push (s : SegState α) (bid len : Nat) : SegState α :=
  { s with
    queue := s.queue.push ⟨len, 0, bid⟩,
    log := s.log ++ [.push bid ((s.base bid).take len)] }

def consume (s : SegState α) (max : Nat) : SegState α :=
  let r := consumeLog s.base (s.queue.toList.length + 1) max s.queue
  { s with queue := r.2, log := s.log ++ r.1 }

def destroy (s : SegState α) : SegState α :=
  let r := drainLog s.queue
  { s with queue := r.2, log := s.log ++ (.teardown :: r.1), torn := true }

end SegState

/-- Any order of completions and calls, with any sizes, and at most one `destroy`. -/
inductive SegRuns : SegState α → Prop where
  | start (base : Nat → List α) : SegRuns (.new base)
  | write {s : SegState α} (hs : SegRuns s) (alive : s.torn = false) (bid : Nat)
      (bytes : List α) (free : bid ∉ s.held) :
      SegRuns { s with base := Function.update s.base bid bytes }
  | push {s : SegState α} (hs : SegRuns s) (alive : s.torn = false) (bid len : Nat)
      (free : bid ∉ s.held) (stored : len ≤ (s.base bid).length) : SegRuns (s.push bid len)
  | consume {s : SegState α} (hs : SegRuns s) (alive : s.torn = false) (max : Nat) :
      SegRuns (s.consume max)
  | destroy {s : SegState α} (hs : SegRuns s) (alive : s.torn = false) : SegRuns s.destroy

/-! ### The log -/

theorem pushes_append (l l' : List (SegEvent α)) : pushes (l ++ l') = pushes l ++ pushes l' :=
  List.flatMap_append

theorem copied_append (l l' : List (SegEvent α)) : copied (l ++ l') = copied l ++ copied l' :=
  List.flatMap_append

theorem recycled_append (l l' : List (SegEvent α)) :
    recycled (l ++ l') = recycled l ++ recycled l' :=
  List.flatMap_append

/-- The log is that of the calls: what they return, the queue behind them and the buffers. -/
theorem consumeLog_loop (base : Nat → List α) (fuel want : Nat) (q : SegQueue) :
    (copied (consumeLog base fuel want q).1, (consumeLog base fuel want q).2,
      recycled (consumeLog base fuel want q).1) = consumeLoop base fuel want q := by
  induction fuel generalizing want q with
  | zero => rfl
  | succ fuel ih =>
      unfold consumeLog consumeLoop
      split
      · rfl
      · cases q.front with
        | none => rfl
        | some s =>
            dsimp only
            generalize (if s.len - s.off < want then s.len - s.off else want) = take
            split
            · rw [← ih]
              rfl
            · rw [← ih]
              rfl

theorem consumeLog_pushes (base : Nat → List α) (fuel want : Nat) (q : SegQueue) :
    pushes (consumeLog base fuel want q).1 = [] := by
  induction fuel generalizing want q with
  | zero => rfl
  | succ fuel ih =>
      unfold consumeLog
      split
      · rfl
      · cases q.front with
        | none => rfl
        | some s =>
            dsimp only
            generalize (if s.len - s.off < want then s.len - s.off else want) = take
            split
            · exact ih ..
            · exact ih ..

theorem consumeLog_zero (base : Nat → List α) (fuel : Nat) (q : SegQueue) :
    consumeLog base fuel 0 q = ([], q) := by
  cases fuel with
  | zero => rfl
  | succ fuel => exact if_pos rfl

theorem drainLog_eq (q : SegQueue) :
    (drainLog q : List (SegEvent α) × SegQueue).1 = q.toList.map (fun s => .recycle s.bid) ∧
      (drainLog q : List (SegEvent α) × SegQueue).2.toList = [] := by
  fun_induction drainLog (α := α) q with
  | case1 q hfront =>
      rw [SegQueue.front_toList, List.head?_eq_none_iff] at hfront
      rw [hfront]
      exact ⟨rfl, rfl⟩
  | case2 q s hfront log q' hdrain ih =>
      rw [hdrain, SegQueue.popFront_toList] at ih
      rw [SegQueue.front_toList] at hfront
      obtain ⟨l, hl⟩ := List.head?_eq_some_iff.mp hfront
      rw [hl] at ih ⊢
      exact ⟨congrArg (SegEvent.recycle s.bid :: ·) ih.1, ih.2⟩

/-- Every buffer goes back only after all bytes up to its end were copied out; `teardown` lifts
that. -/
def Timely (log : List (SegEvent α)) : Prop :=
  ∀ before bid after, log = before ++ .recycle bid :: after → .teardown ∈ before ∨
    ((pushes before).take ((recycled before).length + 1)).flatMap Prod.snd <+: copied before

theorem Timely.append {log : List (SegEvent α)} (h : Timely log) {e : SegEvent α}
    (he : ∀ bid, e = .recycle bid → .teardown ∈ log ∨
      ((pushes log).take ((recycled log).length + 1)).flatMap Prod.snd <+: copied log) :
    Timely (log ++ [e]) := by
  intro before bid after heq
  rcases List.eq_nil_or_concat after with rfl | ⟨after, last, rfl⟩
  · obtain ⟨rfl, hlast⟩ := List.append_inj' heq rfl
    exact he bid (List.head_eq_of_cons_eq hlast)
  · have hfront : log = before ++ .recycle bid :: after := by
      have heq' : log ++ [e] = (before ++ .recycle bid :: after) ++ [last] := by
        rw [heq, List.concat_eq_append, List.append_assoc]
        rfl
      exact (List.append_inj' heq' rfl).1
    exact h before bid after hfront

/-! ### The segments that wait -/

structure Holding (base : Nat → List α) (s : Seg) (p : Nat × List α) : Prop where
  bid : s.bid = p.1
  bytes : (base s.bid).take s.len = p.2
  stored : s.len ≤ (base s.bid).length
  off_le : s.off ≤ s.len

inductive Waiting (base : Nat → List α) : List Seg → List (Nat × List α) → List α → Prop where
  | nil : Waiting base [] [] []
  | cons {s : Seg} {p : Nat × List α} {l : List Seg} {ps : List (Nat × List α)}
      (front : Holding base s p) (behind : List.Forall₂ (Holding base) l ps)
      (unread : ∀ x ∈ l, x.off = 0) : Waiting base (s :: l) (p :: ps) (p.2.take s.off)

variable {base : Nat → List α} {s : Seg} {l : List Seg} {p : Nat × List α}
  {ps : List (Nat × List α)} {part : List α} {q : SegQueue} {log : List (SegEvent α)}

theorem Holding.left (h : Holding base s p) : s.bytes base = p.2.drop s.off := by
  rw [← h.bytes]
  rfl

theorem Holding.length (h : Holding base s p) : p.2.length = s.len := by
  rw [← h.bytes, List.length_take, Nat.min_eq_left h.stored]

theorem segBytes_holding (h : List.Forall₂ (Holding base) l ps) (unread : ∀ x ∈ l, x.off = 0) :
    segBytes base l = ps.flatMap Prod.snd := by
  induction h with
  | nil => rfl
  | @cons s p l ps hs _ ih =>
      have hoff : s.off = 0 := unread s List.mem_cons_self
      rw [segBytes_cons, hs.left, hoff, List.drop_zero,
        ih fun x hx => unread x (List.mem_cons_of_mem _ hx)]
      rfl

theorem Waiting.bytes (h : Waiting base l ps part) :
    part ++ segBytes base l = ps.flatMap Prod.snd := by
  cases h with
  | nil => rfl
  | @cons s p l ps hfront hbehind hunread =>
      rw [segBytes_cons, hfront.left, segBytes_holding hbehind hunread, ← List.append_assoc,
        List.take_append_drop]
      rfl

theorem Waiting.bids (h : Waiting base l ps part) : l.map Seg.bid = ps.map Prod.fst := by
  have hbehind : ∀ {l : List Seg} {ps : List (Nat × List α)}, List.Forall₂ (Holding base) l ps →
      l.map Seg.bid = ps.map Prod.fst := by
    intro l ps hall
    induction hall with
    | nil => rfl
    | cons hs _ ih => rw [List.map_cons, List.map_cons, ih, hs.bid]
  cases h with
  | nil => rfl
  | cons hfront hall _ => rw [List.map_cons, List.map_cons, hbehind hall, hfront.bid]

theorem Waiting.push (h : Waiting base l ps part) {bid len : Nat}
    (stored : len ≤ (base bid).length) :
    Waiting base (l ++ [⟨len, 0, bid⟩]) (ps ++ [(bid, (base bid).take len)]) part := by
  have hnew : Holding base ⟨len, 0, bid⟩ (bid, (base bid).take len) :=
    ⟨rfl, rfl, stored, Nat.zero_le _⟩
  cases h with
  | nil => exact .cons hnew .nil nofun
  | cons hfront hbehind hunread =>
      refine .cons hfront (List.rel_append hbehind (.cons hnew .nil)) ?_
      intro x hx
      rcases List.mem_append.mp hx with hx | hx
      · exact hunread x hx
      · rw [List.mem_singleton.mp hx]

theorem Holding.congr {base' : Nat → List α} (h : Holding base s p)
    (heq : base' s.bid = base s.bid) : Holding base' s p :=
  ⟨h.bid, by rw [heq]; exact h.bytes, by rw [heq]; exact h.stored, h.off_le⟩

theorem Waiting.congr {base' : Nat → List α} (h : Waiting base l ps part)
    (heq : ∀ x ∈ l, base' x.bid = base x.bid) : Waiting base' l ps part := by
  cases h with
  | nil => exact .nil
  | cons hfront hbehind hunread =>
      refine .cons (hfront.congr (heq _ List.mem_cons_self)) ?_ hunread
      have hall := fun x hx => heq x (List.mem_cons_of_mem _ hx)
      clear heq hunread
      induction hbehind with
      | nil => exact .nil
      | cons hs _ ih =>
          exact .cons (hs.congr (hall _ List.mem_cons_self))
            (ih fun x hx => hall x (List.mem_cons_of_mem _ hx))

/-- A segment that is read to its end leaves a queue of which nothing is read. -/
theorem Waiting.pop (h : Waiting base (s :: l) (p :: ps) part) (hend : s.off = s.len) :
    part = p.2 ∧ Waiting base l ps [] := by
  cases h with
  | cons hfront hbehind hunread =>
      refine ⟨List.take_of_length_le (by rw [hfront.length, hend]), ?_⟩
      cases hbehind with
      | nil => exact .nil
      | @cons x p' l ps hx hl =>
          have hoff : x.off = 0 := hunread x List.mem_cons_self
          have hwait : Waiting base (x :: l) (p' :: ps) (p'.2.take x.off) :=
            .cons hx hl fun y hy => hunread y (List.mem_cons_of_mem _ hy)
          rw [hoff, List.take_zero] at hwait
          exact hwait

theorem Waiting.read (h : Waiting base (s :: l) ps part) {n : Nat} (hn : n ≤ s.len - s.off) :
    Waiting base ({ s with off := s.off + n } :: l) ps
      (part ++ ((base s.bid).drop s.off).take n) := by
  cases h with
  | @cons _ p _ ps hfront hbehind hunread =>
      have hread : p.2.take s.off ++ ((base s.bid).drop s.off).take n =
          p.2.take (s.off + n) := by
        rw [Seg.copied hn, hfront.left]
        exact List.take_add.symm
      rw [hread]
      refine .cons ⟨hfront.bid, hfront.bytes, hfront.stored, ?_⟩ hbehind hunread
      have hle := hfront.off_le
      change s.off + n ≤ s.len
      omega

/-! ### The queue and its log -/

/-- The segments that went back, in the order of their pushes, are read, and of the others only
a part of the first. -/
structure Told (base : Nat → List α) (q : SegQueue) (log : List (SegEvent α)) : Prop where
  split : ∃ read rest part, pushes log = read ++ rest ∧ recycled log = read.map Prod.fst ∧
    Waiting base q.toList rest part ∧ copied log = read.flatMap Prod.snd ++ part
  timely : Timely log

theorem Told.start (base : Nat → List α) : Told base .new ([] : List (SegEvent α)) :=
  ⟨⟨[], [], [], rfl, rfl, .nil, rfl⟩, fun before _ _ heq =>
    absurd heq.symm (by simp)⟩

theorem Told.push (h : Told base q log) {bid len : Nat} (stored : len ≤ (base bid).length) :
    Told base (q.push ⟨len, 0, bid⟩) (log ++ [.push bid ((base bid).take len)]) := by
  obtain ⟨⟨read, rest, part, hpushes, hrecycled, hwait, hcopied⟩, htimely⟩ := h
  refine ⟨⟨read, rest ++ [(bid, (base bid).take len)], part, ?_, ?_, ?_, ?_⟩,
    htimely.append nofun⟩
  · rw [pushes_append, hpushes, List.append_assoc]
    rfl
  · rw [recycled_append, hrecycled]
    exact List.append_nil _
  · rw [SegQueue.push_toList]
    exact hwait.push stored
  · rw [copied_append, hcopied]
    exact List.append_nil _

theorem Told.copy (h : Told base q log) {n : Nat} (hl : q.toList = s :: l)
    (hn : n ≤ s.len - s.off) :
    Told base (q.setFront { s with off := s.off + n })
      (log ++ [.copy (((base s.bid).drop s.off).take n)]) := by
  obtain ⟨⟨read, rest, part, hpushes, hrecycled, hwait, hcopied⟩, htimely⟩ := h
  rw [hl] at hwait
  refine ⟨⟨read, rest, part ++ ((base s.bid).drop s.off).take n, ?_, ?_, ?_, ?_⟩,
    htimely.append nofun⟩
  · rw [pushes_append, hpushes]
    exact List.append_nil _
  · rw [recycled_append, hrecycled]
    exact List.append_nil _
  · rw [SegQueue.setFront_toList hl]
    exact hwait.read hn
  · rw [copied_append, hcopied, List.append_assoc]
    exact congrArg (fun b => read.flatMap Prod.snd ++ (part ++ b)) (List.append_nil _)

theorem Told.recycle (h : Told base q log) (hl : q.toList = s :: l) (hend : s.off = s.len) :
    Told base q.popFront (log ++ [.recycle s.bid]) := by
  obtain ⟨⟨read, rest, part, hpushes, hrecycled, hwait, hcopied⟩, htimely⟩ := h
  rw [hl] at hwait
  cases rest with
  | nil => cases hwait
  | cons p rest =>
      have hbid : s.bid = p.1 := by
        cases hwait with
        | cons hfront => exact hfront.bid
      obtain ⟨hpart, hwait'⟩ := hwait.pop hend
      have hread : copied log = (read ++ [p]).flatMap Prod.snd := by
        rw [hcopied, hpart, List.flatMap_append]
        exact congrArg (read.flatMap Prod.snd ++ ·) (List.append_nil _).symm
      refine ⟨⟨read ++ [p], rest, [], ?_, ?_, ?_, ?_⟩, htimely.append fun _ _ => .inr ?_⟩
      · rw [pushes_append, hpushes]
        exact (List.append_nil _).trans (List.append_assoc read [p] rest).symm
      · rw [recycled_append, hrecycled, List.map_append, hbid]
        rfl
      · rw [SegQueue.popFront_toList, hl]
        exact hwait'
      · rw [copied_append, hread]
        rfl
      · have hlen : (recycled log).length + 1 = (read ++ [p]).length := by
          rw [hrecycled, List.length_map, List.length_append]
          rfl
        have hfirst : pushes log = (read ++ [p]) ++ rest := by
          rw [hpushes, List.append_assoc]
          rfl
        rw [hlen, hfirst, List.take_left, hread]

theorem Told.bytes (h : Told base q log) :
    copied log ++ segBytes base q.toList = (pushes log).flatMap Prod.snd := by
  obtain ⟨⟨read, rest, part, hpushes, -, hwait, hcopied⟩, -⟩ := h
  rw [hcopied, hpushes, List.flatMap_append, List.append_assoc, hwait.bytes]

theorem Told.bids (h : Told base q log) :
    recycled log ++ q.toList.map Seg.bid = (pushes log).map Prod.fst := by
  obtain ⟨⟨read, rest, part, hpushes, hrecycled, hwait, -⟩, -⟩ := h
  rw [hrecycled, hpushes, List.map_append, hwait.bids]

theorem Told.front (h : Told base q log) (hl : q.toList = s :: l) :
    s.off ≤ s.len ∧ s.len ≤ (base s.bid).length := by
  obtain ⟨⟨_, rest, _, _, _, hwait, _⟩, _⟩ := h
  rw [hl] at hwait
  cases hwait with
  | cons hfront => exact ⟨hfront.off_le, hfront.stored⟩

/-- A call keeps the log true, and ends with all that was asked for or with an empty queue. -/
theorem Told.call (h : Told base q log) {fuel : Nat} (want : Nat) (hfuel : q.toList.length < fuel) :
    Told base (consumeLog base fuel want q).2 (log ++ (consumeLog base fuel want q).1) ∧
      (copied (consumeLog base fuel want q).1).length ≤ want ∧
      ((copied (consumeLog base fuel want q).1).length = want ∨
        (consumeLog base fuel want q).2.toList = []) := by
  induction fuel generalizing want q log with
  | zero => exact absurd hfuel (Nat.not_lt_zero _)
  | succ fuel ih =>
      unfold consumeLog
      split
      · rename_i hzero
        rw [List.append_nil, hzero]
        exact ⟨h, Nat.le_refl _, .inl rfl⟩
      · rename_i hpos
        cases hl : q.toList with
        | nil =>
            have hfront : q.front = none := by rw [q.front_toList, hl]; rfl
            rw [hfront, List.append_nil]
            exact ⟨h, Nat.zero_le _, .inr hl⟩
        | cons s l =>
            have hfront : q.front = some s := by rw [q.front_toList, hl]; rfl
            obtain ⟨hoff, hstored⟩ := h.front hl
            rw [hfront]
            dsimp only
            have hn : ∃ n, (if s.len - s.off < want then s.len - s.off else want) = n ∧
                n ≤ s.len - s.off ∧ n ≤ want ∧ (n ≠ want → n = s.len - s.off) := by
              refine ⟨_, rfl, ?_⟩
              split <;> omega
            obtain ⟨n, heq, hle, hwant, hshort⟩ := hn
            rw [heq]
            have hlen : (((base s.bid).drop s.off).take n).length = n := by
              rw [List.length_take, List.length_drop]
              omega
            have hread := h.copy hl hle
            have hset := SegQueue.setFront_toList (s := { s with off := s.off + n }) hl
            split
            · -- the segment is read to its end
              rename_i hend
              have hback := hread.recycle hset hend
              have hpop : (q.setFront { s with off := s.off + n }).popFront.toList = l := by
                rw [SegQueue.popFront_toList, hset]
                rfl
              have hfuel' : (q.setFront { s with off := s.off + n }).popFront.toList.length <
                  fuel := by
                rw [hl, List.length_cons] at hfuel
                rw [hpop]
                omega
              obtain ⟨htold, hmost, hdone⟩ := ih hback (want - n) hfuel'
              rw [List.append_assoc, List.append_assoc] at htold
              refine ⟨htold, ?_, ?_⟩
              · change (((base s.bid).drop s.off).take n ++ copied _).length ≤ want
                rw [List.length_append, hlen]
                omega
              · refine hdone.imp_left fun hall => ?_
                change (((base s.bid).drop s.off).take n ++ copied _).length = want
                rw [List.length_append, hlen, hall]
                omega
            · -- a part of it is left, and nothing more is wanted
              rename_i hpart
              have hall : n = want := by
                by_contra hne
                have hn' := hshort hne
                have hpart' : s.off + n ≠ s.len := hpart
                omega
              rw [hall, Nat.sub_self, consumeLog_zero]
              rw [hall] at hread hlen
              refine ⟨hread, ?_, .inl ?_⟩
              · change (((base s.bid).drop s.off).take want ++ []).length ≤ want
                rw [List.append_nil, hlen]
              · change (((base s.bid).drop s.off).take want ++ []).length = want
                rw [List.append_nil, hlen]

theorem Told.returns (h : Told base q log) (max : Nat) :
    (consumeMsRecv base max q).1 = (segBytes base q.toList).take max := by
  obtain ⟨htold, hmost, hdone⟩ := h.call max (Nat.lt_succ_self _)
  have hbytes := htold.bytes
  rw [pushes_append, consumeLog_pushes, List.append_nil, ← h.bytes, copied_append,
    List.append_assoc] at hbytes
  have hsplit := List.append_cancel_left hbytes
  have hout : (consumeMsRecv base max q).1 =
      copied (consumeLog base (q.toList.length + 1) max q).1 :=
    (congrArg Prod.fst (consumeLog_loop base _ max q)).symm
  rw [hout, ← hsplit]
  rcases hdone with hall | hempty
  · exact (List.take_left' hall).symm
  · rw [hempty]
    change copied _ = (copied _ ++ []).take max
    rw [List.append_nil, List.take_of_length_le hmost]

/-! ### Runs -/

theorem told_of_runs {s : SegState α} (h : SegRuns s) (alive : s.torn = false) :
    Told s.base s.queue s.log := by
  induction h with
  | start base => exact Told.start base
  | @write s _ halive bid bytes free ih =>
      obtain ⟨⟨read, rest, part, hpushes, hrecycled, hwait, hcopied⟩, htimely⟩ := ih halive
      refine ⟨⟨read, rest, part, hpushes, hrecycled, hwait.congr ?_, hcopied⟩, htimely⟩
      intro x hx
      have hne : x.bid ≠ bid := fun heq => free (heq ▸ List.mem_map_of_mem hx)
      exact Function.update_of_ne hne ..
  | push _ halive bid len _ stored ih => exact (ih halive).push stored
  | consume _ halive max ih => exact ((ih halive).call max (Nat.lt_succ_self _)).1
  | destroy _ _ _ => exact absurd alive (Bool.noConfusion)

/-- After `teardown` the buffers may go back at once. -/
theorem Timely.drain (h : Timely log) (hdown : .teardown ∈ log) (l : List Seg) :
    Timely (log ++ l.map (fun s => .recycle s.bid)) := by
  induction l generalizing log with
  | nil =>
      rw [List.map_nil, List.append_nil]
      exact h
  | cons s l ih =>
      rw [List.map_cons, List.append_cons]
      exact ih (h.append fun _ _ => .inl hdown) (List.mem_append_left _ hdown)

theorem hasData_iff_held {pushed : List (Nat × List α)}
    (hbids : recycled log ++ q.toList.map Seg.bid = pushed.map Prod.fst) :
    q.hasData = true ↔ (recycled log).length < pushed.length := by
  have hlen := congrArg List.length hbids
  rw [List.length_append, List.length_map, List.length_map] at hlen
  rw [SegQueue.hasData_iff, ← List.length_pos_iff]
  omega

theorem log_recycles (l : List Seg) :
    pushes (α := α) (l.map fun s => .recycle s.bid) = [] ∧
      copied (α := α) (l.map fun s => .recycle s.bid) = [] ∧
      recycled (α := α) (l.map fun s => .recycle s.bid) = l.map Seg.bid := by
  induction l with
  | nil => exact ⟨rfl, rfl, rfl⟩
  | cons s l ih =>
      obtain ⟨hpushes, hcopied, hrecycled⟩ := ih
      exact ⟨hpushes, hcopied, congrArg (s.bid :: ·) hrecycled⟩

theorem Told.destroy {s : SegState α} (h : Told s.base s.queue s.log) :
    s.destroy.queue.toList = [] ∧ pushes s.destroy.log = pushes s.log ∧
      copied s.destroy.log = copied s.log ∧
      recycled s.destroy.log = (pushes s.log).map Prod.fst ∧ Timely s.destroy.log := by
  obtain ⟨hlog, hempty⟩ := drainLog_eq (α := α) s.queue
  have heq : s.destroy.log = s.log ++ [.teardown] ++
      s.queue.toList.map (fun s => .recycle s.bid) := by
    rw [← hlog, List.append_assoc]
    rfl
  obtain ⟨hpushes, hcopied, hrecycled⟩ := log_recycles (α := α) s.queue.toList
  rw [heq]
  refine ⟨hempty, ?_, ?_, ?_, ?_⟩
  · rw [pushes_append, pushes_append, hpushes, List.append_nil]
    exact List.append_nil _
  · rw [copied_append, copied_append, hcopied, List.append_nil]
    exact List.append_nil _
  · rw [recycled_append, recycled_append, hrecycled, ← h.bids]
    exact congrArg (· ++ s.queue.toList.map Seg.bid) (List.append_nil _)
  · have hdown : Timely (s.log ++ [.teardown]) := h.timely.append fun _ heq => nomatch heq
    exact hdown.drain
      (List.mem_append_right _ List.mem_cons_self) s.queue.toList

/-- What the calls copied out is the segments' bytes in the order of their pushes; every call
returns the next ones.  The buffers go back in that order too, each after its bytes or with the
socket, and there is data as long as a buffer is not back. -/
theorem segments_in_order {s : SegState α} (h : SegRuns s) :
    (s.torn = false →
      copied s.log ++ segBytes s.base s.queue.toList = (pushes s.log).flatMap Prod.snd ∧
      ∀ max, (consumeMsRecv s.base max s.queue).1 =
        (((pushes s.log).flatMap Prod.snd).drop (copied s.log).length).take max) ∧
    copied s.log <+: (pushes s.log).flatMap Prod.snd ∧
    recycled s.log ++ s.held = (pushes s.log).map Prod.fst ∧
    (s.queue.hasData = true ↔ (recycled s.log).length < (pushes s.log).length) ∧
    (s.torn = true → recycled s.log = (pushes s.log).map Prod.fst) ∧
    Timely s.log := by
  cases htorn : s.torn with
  | false =>
      have htold := told_of_runs h htorn
      refine ⟨fun _ => ⟨htold.bytes, fun max => ?_⟩, ⟨_, htold.bytes⟩, htold.bids,
        hasData_iff_held htold.bids, nofun, htold.timely⟩
      rw [← htold.bytes, List.drop_left]
      exact htold.returns max
  | true =>
      cases h with
      | start base => exact absurd htorn (Bool.noConfusion)
      | write _ alive _ _ _ => exact absurd (alive.symm.trans htorn) (Bool.noConfusion)
      | push _ alive _ _ _ _ => exact absurd (alive.symm.trans htorn) (Bool.noConfusion)
      | consume _ alive _ => exact absurd (alive.symm.trans htorn) (Bool.noConfusion)
      | @destroy s hs alive =>
          have htold := told_of_runs hs alive
          obtain ⟨hempty, hpushes, hcopied, hrecycled, htimely⟩ := htold.destroy
          have hheld : recycled s.destroy.log ++ s.destroy.queue.toList.map Seg.bid =
              (pushes s.log).map Prod.fst := by
            rw [hempty, hrecycled]
            exact List.append_nil _
          rw [hpushes, hcopied]
          exact ⟨nofun, ⟨_, htold.bytes⟩, hheld, hasData_iff_held hheld, fun _ => hrecycled,
            htimely⟩

/-- Two segments come, and a call takes the first and a byte of the second. -/
theorem segments_in_order_two :
    copied ((((SegState.new fun b => if b = 4 then [10, 11, 12] else [20, 21]).push 4 2).push
      7 2).consume 3).log ++ [21] = [10, 11, 20, 21] := by
  have hrun : SegRuns ((((SegState.new fun b => if b = 4 then [10, 11, 12] else [20, 21]).push
      4 2).push 7 2).consume 3) :=
    .consume (.push (.push (.start _) rfl 4 2 (by decide) (by decide)) rfl 7 2 (by decide)
      (by decide)) rfl 3
  exact ((segments_in_order hrun).1 rfl).1

end Uvent.Net.Uring
