import Uvent.Queue.SegmentedRuns

/-!
# When a dequeue finds nothing

A dequeue that returns without an element does so at an access that shows the
queue drained: a consumer has claimed every position that a producer has.
-/

namespace Uvent.Queue.Segmented

open Uvent.Lib

variable {α : Type}

def Drained (q : Chain α) : Prop :=
  ∀ k i t op v, (q.segs k).fate i = .put t op v → (q.segs k).taker i ≠ none

def Seen (size : Nat) (q : Chain α) : Pc α → Prop
  | .scan _ s d _ _ | .checkEmpty _ s d => s ≤ q.head ∧ d < size ∧ d ≤ (q.segs s).deqPos
  | .loadHeadNext _ s => s ≤ q.head ∧ size ≤ (q.segs s).deqPos
  | .loadDeq _ s | .casDeq _ s _ | .addDeq _ s _ | .takeState _ s _ _ _ | .takeEnq _ s _ _ _
  | .takeCas _ s _ _ _ _ | .burn _ s _ _ _ _ | .consume _ s _ _ _ | .swingHead _ s => s ≤ q.head
  | _ => True

section Seen

variable {size t : Nat} {q q' : Chain α} {pc : Pc α}

theorem Seen.mono (h : Seen size q pc) (hhead : q.head ≤ q'.head)
    (hdeq : ∀ k, (q.segs k).deqPos ≤ (q'.segs k).deqPos) : Seen size q' pc := by
  cases pc with
  | scan max s d limit ready => exact ⟨h.1.trans hhead, h.2.1, h.2.2.trans (hdeq s)⟩
  | checkEmpty max s d => exact ⟨h.1.trans hhead, h.2.1, h.2.2.trans (hdeq s)⟩
  | loadHeadNext max s => exact ⟨h.1.trans hhead, h.2.trans (hdeq s)⟩
  | loadDeq max s => exact Nat.le_trans h hhead
  | casDeq max s d => exact Nat.le_trans h hhead
  | addDeq max s n => exact Nat.le_trans h hhead
  | takeState max s i stop out => exact Nat.le_trans h hhead
  | takeEnq max s i stop out => exact Nat.le_trans h hhead
  | takeCas max s i stop e out => exact Nat.le_trans h hhead
  | burn max s j i stop out => exact Nat.le_trans h hhead
  | consume max s i stop out => exact Nat.le_trans h hhead
  | swingHead max s => exact Nat.le_trans h hhead
  | _ => exact trivial

theorem nextClaim_head (q : Chain α) (carry : Bool) (op s : Nat) (vs : List α) :
    (nextClaim q carry op s vs).1.head = q.head := by
  cases vs with
  | nil => rfl
  | cons v vs => rfl

theorem swingTail_head (q : Chain α) (s : Nat) : (q.swingTail s).head = q.head := by
  unfold Chain.swingTail
  split <;> rfl

theorem le_swingHead (q : Chain α) (s : Nat) : q.head ≤ (q.swingHead s).head := by
  unfold Chain.swingHead
  split
  · rename_i h
    exact h ▸ Nat.le_succ _
  · exact Nat.le_refl _

/-- What comes of the positions a consumer has claimed is behind the head. -/
theorem seen_nextTake {max : Option Nat} {s i stop : Nat} {out : List (Option α)}
    (h : s ≤ q.head) : q.head ≤ (nextTake q max s i stop out).1.head ∧
      Seen size (nextTake q max s i stop out).1 (nextTake q max s i stop out).2 := by
  obtain ⟨pc', heq, -, ⟨-, rfl⟩ | ⟨-, rfl | rfl⟩⟩ := nextTake_cases q max s i stop out
  · rw [heq]
    exact ⟨Nat.le_refl _, h⟩
  · rw [heq]
    exact ⟨Nat.le_refl _, h⟩
  · rw [heq]
    exact ⟨Nat.le_refl _, trivial⟩

theorem exec_producer {x : Nat × List α} (spurious : Bool) (hpc : pc.call = some x) :
    (exec size t spurious q pc).1.head = q.head ∧
      Seen size (exec size t spurious q pc).1 (exec size t spurious q pc).2 := by
  cases pc with
  | protectTail carry op vs =>
      refine ⟨nextClaim_head .., ?_⟩
      cases vs <;> exact trivial
  | claim carry op s vs =>
      refine ⟨rfl, ?_⟩
      rw [exec.eq_def]
      dsimp only
      split <;> exact trivial
  | publish carry op s i stop beyond vs =>
      rw [exec.eq_def]
      dsimp only
      split
      · cases vs <;> exact ⟨rfl, trivial⟩
      · split
        · exact ⟨rfl, trivial⟩
        · refine ⟨nextClaim_head .., ?_⟩
          cases vs <;> exact trivial
  | loadNext carry op s vs =>
      rw [exec.eq_def]
      dsimp only
      split
      · exact ⟨rfl, trivial⟩
      · split <;> exact ⟨rfl, trivial⟩
  | link carry op s fresh vs =>
      rw [exec.eq_def]
      dsimp only
      split
      · refine ⟨rfl, ?_⟩
        split <;> exact trivial
      · exact ⟨rfl, trivial⟩
  | swing carry op s vs => exact ⟨swingTail_head q s, trivial⟩
  | swingLast op s => exact ⟨swingTail_head q s, trivial⟩
  | _ => simp [Pc.call] at hpc

theorem exec_seen (spurious : Bool) (h : Seen size q pc) :
    q.head ≤ (exec size t spurious q pc).1.head ∧
      Seen size (exec size t spurious q pc).1 (exec size t spurious q pc).2 := by
  cases hcall : pc.call with
  | some x =>
      have hstep : (exec size t spurious q pc).1.head = q.head ∧
          Seen size (exec size t spurious q pc).1 (exec size t spurious q pc).2 :=
        exec_producer spurious hcall
      exact ⟨hstep.1.ge, hstep.2⟩
  | none =>
      rw [exec.eq_def]
      cases pc with
      | protectHead max => exact ⟨Nat.le_refl _, Nat.le_refl _⟩
      | loadDeq max s =>
          dsimp only
          split
          · rename_i hd
            exact ⟨Nat.le_refl _, h, hd⟩
          · rename_i hd
            exact ⟨Nat.le_refl _, h, Nat.lt_of_not_le hd, Nat.le_refl _⟩
      | scan max s d limit ready =>
          dsimp only
          split
          · exact ⟨Nat.le_refl _, h⟩
          · refine ⟨Nat.le_refl _, ?_⟩
            unfold afterScan
            split
            · exact h
            · split <;> exact h.1
      | checkEmpty max s d =>
          dsimp only
          split
          · exact ⟨Nat.le_refl _, trivial⟩
          · exact ⟨Nat.le_refl _, h.1⟩
      | casDeq max s d =>
          dsimp only
          split <;> exact ⟨Nat.le_refl _, h⟩
      | addDeq max s n =>
          refine ⟨Nat.le_refl _, ?_⟩
          dsimp only
          split <;> exact h
      | takeState max s i stop out =>
          dsimp only
          split
          · exact ⟨Nat.le_refl _, h⟩
          · exact ⟨Nat.le_refl _, h⟩
          · exact seen_nextTake h
      | takeEnq max s i stop out =>
          dsimp only
          split <;> exact ⟨Nat.le_refl _, h⟩
      | takeCas max s i stop e out =>
          dsimp only
          split <;> exact ⟨Nat.le_refl _, h⟩
      | burn max s j i stop out =>
          dsimp only
          split
          · exact ⟨Nat.le_refl _, h⟩
          · exact seen_nextTake h
      | consume max s i stop out =>
          exact seen_nextTake (q := q.modifySeg s (.consumeCell t i)) h
      | loadHeadNext max s =>
          dsimp only
          split
          · exact ⟨Nat.le_refl _, h.1⟩
          · exact ⟨Nat.le_refl _, trivial⟩
      | swingHead max s => exact ⟨le_swingHead q s, trivial⟩
      | idle => exact ⟨Nat.le_refl _, trivial⟩
      | _ => simp [Pc.call] at hcall

theorem start_seen (c : Call α) : (c.start size t q).1.head = q.head ∧
    Seen size (c.start size t q).1 (c.start size t q).2 := by
  cases c with
  | enqueue v => exact ⟨rfl, trivial⟩
  | enqueueBulk vs => cases vs <;> exact ⟨rfl, trivial⟩
  | tryDequeue => exact ⟨rfl, trivial⟩
  | tryDequeueBulk maxItems =>
      by_cases hmax : maxItems = 0
      · rw [Call.start, if_pos hmax]
        exact ⟨rfl, trivial⟩
      · rw [Call.start, if_neg hmax]
        exact ⟨rfl, trivial⟩

theorem seen_of_runs (hsize : 0 < size) {w : World Nat (Chain α) (Pc α)} (h : Runs size w) :
    ∀ t, Seen size w.shared (w.own t) := by
  induction h with
  | start => exact fun _ => trivial
  | @step w t q pc hw hstep ih =>
      obtain ⟨hs, hown⟩ := (segmentedThreads hsize).holds hw
      have hself : w.shared.head ≤ q.head ∧ Seen size q pc := by
        cases hpc : w.own t with
        | idle =>
            rw [hpc] at hstep
            cases hstep with
            | call c => exact ⟨(start_seen c).1.ge, (start_seen c).2⟩
            | run spurious pc busy => exact absurd rfl busy
        | _ =>
            have hseen := ih t
            rw [hpc] at hstep hseen
            cases hstep with
            | run spurious pc busy => exact exec_seen spurious hseen
      have hdeq : ∀ k, (w.shared.segs k).deqPos ≤ (q.segs k).deqPos := by
        obtain ⟨-, -, hrely⟩ := (segmentedThreads hsize).keeps hstep hs (hown t)
        obtain ⟨t', -, hg⟩ := hrely (t + 1) (by omega)
        exact fun k => (hg.segs k).deq_le
      intro t'
      by_cases ht : t' = t
      · subst ht
        simpa using hself.2
      · simpa [Function.update_of_ne ht] using (ih t').mono hself.1 hdeq

end Seen

/-! ## Nothing there -/

section Drained

variable {size : Nat} {q : Chain α}

theorem Shared.drained (h : Shared size q) {s : Nat} (hs : s ≤ q.head) (hlast : q.last ≤ s)
    (hdeq : min (q.segs s).enqPos size ≤ (q.segs s).deqPos) : Drained q := by
  intro k i t op v hfate hnone
  have hbusy : ¬ (q.segs k).fate i = .free := by
    rw [hfate]
    simp
  rw [(h.seg k).claimed i] at hbusy
  have hopen := ((h.seg k).taken i).mp hnone
  rcases Nat.lt_trichotomy k s with hlt | rfl | hgt
  · have hpassed := h.passed k (by omega)
    omega
  · omega
  · have hnew := h.unlinked k (by omega)
    rw [hnew] at hfate
    simp [Segment.new] at hfate

/-- `try_dequeue` returns at the end of a segment that no other follows. -/
theorem drained_of_loadHeadNext {max : Option Nat} {s : Nat} (h : Shared size q)
    (hseen : Seen size q (.loadHeadNext max s)) (hlast : ¬ s < q.last) : Drained q :=
  h.drained hseen.1 (by omega) (by have := hseen.2; omega)

/-- `try_dequeue` returns at a position that no producer has claimed. -/
theorem drained_of_checkEmpty {max : Option Nat} {s d : Nat} (h : Shared size q)
    (hseen : Seen size q (.checkEmpty max s d)) (hempty : (q.segs s).enqPos ≤ d) : Drained q := by
  obtain ⟨hs, hd, hdeq⟩ := hseen
  refine h.drained hs ?_ (by omega)
  -- a segment behind `s` would mean that `s` is full
  by_contra hlt
  have hfilled := h.filled s (by omega)
  omega

end Drained

end Uvent.Queue.Segmented
