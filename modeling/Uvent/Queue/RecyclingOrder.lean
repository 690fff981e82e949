import Uvent.Queue.Recycling

/-!
# The ends of the chain

`head_` and `tail_` only move forward over linked segments, and `tail_` is at most one segment
behind the last one; while it is behind, a thread is about to move it.
-/

namespace Uvent.Queue.Recycling

open Uvent.Queue.Segmented

variable {α : Type} {size t k : Nat} {q q' : Chain α} {pc : Pc α} {next : Chain α × Pc α}

/-- The place from which a thread is about to move `tail_`. -/
def swings : Pc α → Option Nat
  | .swing _ _ s _ | .swingLast _ s => some s
  | _ => none

def Fits (q : Chain α) : Pc α → Prop
  | .idle | .protectTail .. | .protectHead _ => True
  | .claim _ _ s _ | .publish _ _ s .. | .loadNext _ _ s _ | .link _ _ s .. => s ≤ q.tail
  | .swing _ _ s _ | .swingLast _ s | .swingHead _ s => s < q.last
  | .loadDeq _ s | .scan _ s .. | .checkEmpty _ s _ | .casDeq _ s _ | .addDeq _ s _
  | .takeState _ s .. | .takeEnq _ s .. | .takeCas _ s .. | .burn _ s .. | .consume _ s ..
  | .loadHeadNext _ s => s ≤ q.last

theorem Fits.le_last (h : Fits q pc) (htail : q.tail ≤ q.last) (hk : uses pc = some k) :
    k ≤ q.last := by
  cases pc with
  | idle | protectTail | protectHead => cases hk
  | claim carry op s | publish carry op s | loadNext carry op s | link carry op s =>
      cases hk
      exact Nat.le_trans h htail
  | swing carry op s | swingLast op s | swingHead max s =>
      cases hk
      exact Nat.le_of_lt h
  | loadDeq max s | scan max s | checkEmpty max s | casDeq max s | addDeq max s | takeState max s
  | takeEnq max s | takeCas max s | burn max s | consume max s | loadHeadNext max s =>
      cases hk
      exact h

theorem Fits.mono (h : Fits q pc) (htail : q.tail ≤ q'.tail) (hlast : q.last ≤ q'.last) :
    Fits q' pc := by
  cases pc with
  | idle | protectTail | protectHead => trivial
  | claim | publish | loadNext | link => exact Nat.le_trans h htail
  | swing | swingLast | swingHead => exact Nat.lt_of_lt_of_le h hlast
  | loadDeq | scan | checkEmpty | casDeq | addDeq | takeState | takeEnq | takeCas | burn | consume
  | loadHeadNext => exact Nat.le_trans h hlast

structure SameEnds (q q' : Chain α) : Prop where
  head : q'.head = q.head
  tail : q'.tail = q.tail
  last : q'.last = q.last

theorem SameEnds.fits (h : SameEnds q q') (hfits : Fits q pc) : Fits q' pc :=
  hfits.mono (Nat.le_of_eq h.tail.symm) (Nat.le_of_eq h.last.symm)

/-- A step leaves the ends where they are, and the thread keeps its segment or lets it go. -/
structure Stays (q : Chain α) (k : Nat) (next : Chain α × Pc α) : Prop where
  ends : SameEnds q next.1
  uses : uses next.2 = some k ∨ uses next.2 = none
  fits : Fits q next.2

theorem stays_nextClaim (hk : k ≤ q.tail) (carry : Bool) (op : Nat) (vs : List α) :
    Stays q k (nextClaim q carry op k vs) := by
  cases vs with
  | nil => exact ⟨⟨rfl, rfl, rfl⟩, .inr rfl, trivial⟩
  | cons v vs => exact ⟨⟨rfl, rfl, rfl⟩, .inl rfl, hk⟩

theorem stays_nextTake (hends : SameEnds q q') (hk : k ≤ q.last) (max : Option Nat) (i stop : Nat)
    (out : List (Option α)) : Stays q k (nextTake q' max k i stop out) := by
  unfold nextTake
  split
  · exact ⟨hends, .inl rfl, hk⟩
  · split
    · exact ⟨hends, .inl rfl, hk⟩
    · exact ⟨hends, .inr rfl, trivial⟩

/-- The steps that neither take nor link a segment nor move an end. -/
theorem exec_stays (spurious : Bool) (hk : uses pc = some k) (hplain : moves pc = false)
    (hswings : swings pc = none) (hfits : Fits q pc) :
    Stays q k (exec size t spurious q pc) := by
  cases pc with
  | idle | protectTail | protectHead => cases hk
  | loadNext | link | swingHead => cases hplain
  | swing | swingLast => cases hswings
  | claim carry op s vs =>
      cases hk
      simp only [exec]
      split
      · exact ⟨⟨rfl, rfl, rfl⟩, .inl rfl, hfits⟩
      · exact ⟨⟨rfl, rfl, rfl⟩, .inl rfl, hfits⟩
  | publish carry op s i stop beyond vs =>
      cases hk
      simp only [exec]
      split
      · cases vs <;> exact ⟨⟨rfl, rfl, rfl⟩, .inl rfl, hfits⟩
      · split
        · exact ⟨⟨rfl, rfl, rfl⟩, .inl rfl, hfits⟩
        · exact stays_nextClaim hfits carry op vs
  | loadDeq max s =>
      cases hk
      simp only [exec]
      split <;> exact ⟨⟨rfl, rfl, rfl⟩, .inl rfl, hfits⟩
  | scan max s d limit ready =>
      cases hk
      simp only [exec]
      split
      · exact ⟨⟨rfl, rfl, rfl⟩, .inl rfl, hfits⟩
      · unfold afterScan
        split
        · exact ⟨⟨rfl, rfl, rfl⟩, .inl rfl, hfits⟩
        · split <;> exact ⟨⟨rfl, rfl, rfl⟩, .inl rfl, hfits⟩
  | checkEmpty max s d =>
      cases hk
      simp only [exec]
      split
      · exact ⟨⟨rfl, rfl, rfl⟩, .inr rfl, trivial⟩
      · exact ⟨⟨rfl, rfl, rfl⟩, .inl rfl, hfits⟩
  | casDeq max s d =>
      cases hk
      simp only [exec]
      split <;> exact ⟨⟨rfl, rfl, rfl⟩, .inl rfl, hfits⟩
  | addDeq max s n =>
      cases hk
      simp only [exec]
      split <;> exact ⟨⟨rfl, rfl, rfl⟩, .inl rfl, hfits⟩
  | takeState max s i stop out =>
      cases hk
      simp only [exec]
      split
      · exact ⟨⟨rfl, rfl, rfl⟩, .inl rfl, hfits⟩
      · exact ⟨⟨rfl, rfl, rfl⟩, .inl rfl, hfits⟩
      · exact stays_nextTake ⟨rfl, rfl, rfl⟩ hfits ..
  | takeEnq max s i stop out =>
      cases hk
      simp only [exec]
      split <;> exact ⟨⟨rfl, rfl, rfl⟩, .inl rfl, hfits⟩
  | takeCas max s i stop e out =>
      cases hk
      simp only [exec]
      split <;> exact ⟨⟨rfl, rfl, rfl⟩, .inl rfl, hfits⟩
  | burn max s j i stop out =>
      cases hk
      simp only [exec]
      split
      · exact ⟨⟨rfl, rfl, rfl⟩, .inl rfl, hfits⟩
      · exact stays_nextTake ⟨rfl, rfl, rfl⟩ hfits ..
  | consume max s i stop out =>
      cases hk
      refine stays_nextTake ?_ hfits ..
      exact ⟨rfl, rfl, rfl⟩
  | loadHeadNext max s =>
      cases hk
      simp only [exec]
      split
      · rename_i hlt
        exact ⟨⟨rfl, rfl, rfl⟩, .inl rfl, hlt⟩
      · exact ⟨⟨rfl, rfl, rfl⟩, .inr rfl, trivial⟩

theorem start_stays (c : Call α) :
    SameEnds q (c.start size t q).1 ∧ uses (c.start size t q).2 = none := by
  cases c with
  | enqueue v => exact ⟨⟨rfl, rfl, rfl⟩, rfl⟩
  | enqueueBulk vs => cases vs <;> exact ⟨⟨rfl, rfl, rfl⟩, rfl⟩
  | tryDequeue => exact ⟨⟨rfl, rfl, rfl⟩, rfl⟩
  | tryDequeueBulk maxItems =>
      by_cases hzero : maxItems = 0
      · have hstart : Call.start size t q (.tryDequeueBulk maxItems) = (q, .idle) := if_pos hzero
        rw [hstart]
        exact ⟨⟨rfl, rfl, rfl⟩, rfl⟩
      · have hstart : Call.start size t q (.tryDequeueBulk maxItems) =
            (q, .protectHead (some maxItems)) := if_neg hzero
        rw [hstart]
        exact ⟨⟨rfl, rfl, rfl⟩, rfl⟩

theorem fits_of_unused (h : uses pc = none) : Fits q pc := by
  cases pc with
  | idle | protectTail | protectHead => trivial
  | _ => cases h

theorem swings_of_unused (h : uses pc = none) : swings pc = none := by
  cases pc with
  | idle | protectTail | protectHead => rfl
  | _ => cases h

/-! ### All threads -/

structure Order (q : Chain α) (own : Nat → Pc α) : Prop where
  head : q.head ≤ q.last
  tail : q.tail ≤ q.last
  near : q.last ≤ q.tail + 1
  lag : q.tail < q.last → ∃ t, swings (own t) = some q.tail
  fits : ∀ t, Fits q (own t)

variable {own : Nat → Pc α}

theorem Order.fits_update (h : Order q own) (htail : q.tail ≤ q'.tail) (hlast : q.last ≤ q'.last)
    (hpc : Fits q' pc) (t' : Nat) : Fits q' (Function.update own t pc t') := by
  by_cases ht : t' = t
  · rw [ht, Function.update_self]
    exact hpc
  · rw [Function.update_of_ne ht]
    exact (h.fits t').mono htail hlast

theorem Order.stays (h : Order q own) (hends : SameEnds q next.1) (hold : swings (own t) = none)
    (hfits : Fits q next.2) : Order next.1 (Function.update own t next.2) := by
  have hfits' := h.fits_update (t := t) (Nat.le_of_eq hends.tail.symm)
    (Nat.le_of_eq hends.last.symm) (hends.fits hfits)
  refine ⟨?_, ?_, ?_, fun hlt => ?_, hfits'⟩
  · rw [hends.head, hends.last]
    exact h.head
  · rw [hends.tail, hends.last]
    exact h.tail
  · rw [hends.tail, hends.last]
    exact h.near
  · rw [hends.tail, hends.last] at hlt
    obtain ⟨t₀, ht₀⟩ := h.lag hlt
    have hne : t₀ ≠ t := by
      rintro rfl
      rw [hold] at ht₀
      cases ht₀
    exact ⟨t₀, by rw [Function.update_of_ne hne, hends.tail, ht₀]⟩

theorem swingTail_kept (q : Chain α) (k : Nat) : (q.swingTail k).head = q.head ∧
    (q.swingTail k).last = q.last ∧ q.tail ≤ (q.swingTail k).tail := by
  unfold Chain.swingTail
  split
  · rename_i hk
    exact ⟨rfl, rfl, Nat.le_of_lt (Nat.lt_succ_of_le (Nat.le_of_eq hk))⟩
  · exact ⟨rfl, rfl, Nat.le_refl _⟩

/-- `tail_` is moved, or was moved by another thread. -/
theorem Order.swing (h : Order q own) (hpc : swings (own t) = some k) (hk : k < q.last)
    (hhead : next.1.head = q.head) (hlast : next.1.last = q.last)
    (htail : next.1.tail = (q.swingTail k).tail) (hnext : uses next.2 = none) :
    Order next.1 (Function.update own t next.2) := by
  have hnear := h.near
  by_cases hself : q.tail = k
  · have hmoved : next.1.tail = k + 1 := by
      rw [htail, Chain.swingTail, if_pos hself]
    refine ⟨?_, ?_, ?_, fun hlt => ?_, h.fits_update ?_ (Nat.le_of_eq hlast.symm)
      (fits_of_unused hnext)⟩
    · rw [hhead, hlast]
      exact h.head
    · rw [hmoved, hlast]
      exact hk
    · rw [hmoved, hlast]
      omega
    · rw [hmoved, hlast] at hlt
      omega
    · omega
  · have hkept : next.1.tail = q.tail := by
      rw [htail, Chain.swingTail, if_neg hself]
    refine ⟨?_, ?_, ?_, fun hlt => ?_, h.fits_update (Nat.le_of_eq hkept.symm)
      (Nat.le_of_eq hlast.symm) (fits_of_unused hnext)⟩
    · rw [hhead, hlast]
      exact h.head
    · rw [hkept, hlast]
      exact h.tail
    · rw [hkept, hlast]
      exact hnear
    · rw [hkept, hlast] at hlt
      obtain ⟨t₀, ht₀⟩ := h.lag hlt
      have hne : t₀ ≠ t := by
        rintro rfl
        rw [hpc] at ht₀
        exact hself (Option.some.inj ht₀).symm
      exact ⟨t₀, by rw [Function.update_of_ne hne, hkept, ht₀]⟩

theorem Order.link (h : Order q own) (hk : q.last ≤ q.tail) (hhead : next.1.head = q.head)
    (hlast : next.1.last = q.last + 1) (htail : next.1.tail = q.tail)
    (hnext : swings next.2 = some q.last) : Order next.1 (Function.update own t next.2) := by
  have hsame : q.tail = q.last := Nat.le_antisymm h.tail hk
  have hfits : Fits next.1 next.2 := by
    cases hpc : next.2 with
    | swing carry op s vs | swingLast op s =>
        rw [hpc] at hnext
        obtain rfl := Option.some.inj hnext
        exact Nat.lt_of_lt_of_eq (Nat.lt_succ_self _) hlast.symm
    | _ =>
        rw [hpc] at hnext
        cases hnext
  refine ⟨?_, ?_, ?_, fun _ => ⟨t, ?_⟩, h.fits_update (Nat.le_of_eq htail.symm) ?_ hfits⟩
  · rw [hhead, hlast]
    exact Nat.le_succ_of_le h.head
  · rw [htail, hlast]
    exact Nat.le_succ_of_le h.tail
  · exact Nat.le_of_eq (by rw [htail, hlast, hsame])
  · rw [Function.update_self, htail, hsame]
    exact hnext
  · rw [hlast]
    exact Nat.le_succ _

theorem Order.advance (h : Order q own) (hold : swings (own t) = none)
    (hhead : next.1.head ≤ q.last) (hlast : next.1.last = q.last) (htail : next.1.tail = q.tail)
    (hnext : uses next.2 = none) : Order next.1 (Function.update own t next.2) := by
  refine ⟨?_, ?_, ?_, fun hlt => ?_, h.fits_update (Nat.le_of_eq htail.symm)
    (Nat.le_of_eq hlast.symm) (fits_of_unused hnext)⟩
  · rw [hlast]
    exact hhead
  · rw [htail, hlast]
    exact h.tail
  · rw [htail, hlast]
    exact h.near
  · rw [htail, hlast] at hlt
    obtain ⟨t₀, ht₀⟩ := h.lag hlt
    have hne : t₀ ≠ t := by
      rintro rfl
      rw [hold] at ht₀
      cases ht₀
    exact ⟨t₀, by rw [Function.update_of_ne hne, htail, ht₀]⟩

theorem order_new : Order (Chain.new : Chain α) fun _ => .idle :=
  ⟨Nat.le_refl _, Nat.le_refl _, Nat.le_succ _, fun h => absurd h (Nat.lt_irrefl _),
    fun _ => trivial⟩


end Uvent.Queue.Recycling
