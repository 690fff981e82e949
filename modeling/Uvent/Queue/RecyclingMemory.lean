import Uvent.Queue.RecyclingOrder
import Uvent.Reclaim.HazardFrames

/-!
# Segments and their addresses

The segments from `head_` to the last one are not retired, and what is retired and not deleted
is before `head_`.  Segments that are not deleted are at different addresses, and none is at the
address of a segment that is taken and not linked.
-/

namespace Uvent.Queue.Recycling

open Uvent.Queue.Segmented
open Uvent.Reclaim

variable {α : Type} {s s' : State α} {t k a : Nat} {e : Hazard.Event}

structure Memory (s : State α) : Prop where
  live : ∀ k, s.queue.head ≤ k → k ≤ s.queue.last → s.segment k ∉ s.domain.deleted
  gen : ∀ k, s.Live k → s.domain.gen (s.addr k) = s.birth k
  apart : ∀ k k', s.Live k → s.Live k' → s.addr k = s.addr k' → k = k'
  gone : ∀ k, s.Live k → s.domain.gone (s.addr k) = true →
    k < s.queue.head ∧ ∀ t, s.retiring t ≠ some k
  fresh : ∀ t a, s.fresh t = some a → s.domain.gone a = false ∧ (∀ k, s.Live k → s.addr k ≠ a) ∧
    ∀ t', s.fresh t' = some a → t' = t
  retiring : ∀ t k, s.retiring t = some k → s.Live k ∧ k < s.queue.head ∧
    ∀ t', s.retiring t' = some k → t' = t

structure SameSegments (s s' : State α) : Prop where
  head : s'.queue.head = s.queue.head
  last : s'.queue.last = s.queue.last
  addr : s'.addr = s.addr
  birth : s'.birth = s.birth

theorem SameSegments.segment (h : SameSegments s s') (k : Nat) : s'.segment k = s.segment k := by
  unfold State.segment
  rw [h.addr, h.birth]

theorem SameSegments.live_old (h : SameSegments s s')
    (hdeleted : ∀ x ∈ s.domain.deleted, x ∈ s'.domain.deleted) (hk : s'.Live k) : s.Live k := by
  obtain ⟨hlast, hnot⟩ := hk
  rw [h.last] at hlast
  rw [h.segment] at hnot
  exact ⟨hlast, fun hin => hnot (hdeleted _ hin)⟩

theorem SameSegments.live (h : SameSegments s s') (hdeleted : s'.domain.deleted = s.domain.deleted) :
    s'.Live k ↔ s.Live k := by
  unfold State.Live
  rw [h.last, h.segment, hdeleted]

/-- Nothing is taken or deleted, and of what the queue owns nothing is retired. -/
theorem Memory.others (h : Memory s) (hsame : SameSegments s s')
    (hdeleted : s'.domain.deleted = s.domain.deleted) (hgen : s'.domain.gen = s.domain.gen)
    (hgone : ∀ p, s.Owned p → s'.domain.gone p = s.domain.gone p) (hfresh : s'.fresh = s.fresh)
    (hretiring : s'.retiring = s.retiring) : Memory s' := by
  have hlive : ∀ k, s'.Live k ↔ s.Live k := fun k => hsame.live hdeleted
  refine ⟨fun k hhead hlast => ?_, fun k hk => ?_, fun k k' hk hk' heq => ?_, fun k hk hgo => ?_,
    fun t a hta => ?_, fun t k htk => ?_⟩
  · rw [hsame.head] at hhead
    rw [hsame.last] at hlast
    rw [hsame.segment, hdeleted]
    exact h.live k hhead hlast
  · rw [hgen, hsame.addr, hsame.birth]
    exact h.gen k ((hlive k).mp hk)
  · rw [hsame.addr] at heq
    exact h.apart k k' ((hlive k).mp hk) ((hlive k').mp hk') heq
  · have hk' := (hlive k).mp hk
    rw [hsame.addr, hgone _ (.inl ⟨k, hk', rfl⟩)] at hgo
    rw [hsame.head, hretiring]
    exact h.gone k hk' hgo
  · rw [hfresh] at hta ⊢
    rw [hgone a (.inr ⟨t, hta⟩), hsame.addr]
    obtain ⟨hnot, hapart, hunique⟩ := h.fresh t a hta
    exact ⟨hnot, fun k hk => hapart k ((hlive k).mp hk), hunique⟩
  · rw [hretiring] at htk ⊢
    rw [hlive, hsame.head]
    exact h.retiring t k htk

theorem Memory.pass (h : Memory s) (hsame : SameSegments s s')
    (hdeleted : s'.domain.deleted = s.domain.deleted) (hgen : s'.domain.gen = s.domain.gen)
    (hgone : s'.domain.gone = s.domain.gone) (hfresh : s'.fresh = s.fresh)
    (hretiring : s'.retiring = s.retiring) : Memory s' :=
  h.others hsame hdeleted hgen (fun p _ => congrFun hgone p) hfresh hretiring

theorem update_some {f : Nat → Option Nat} {t' a' : Nat}
    (h : Function.update f t (some a) t' = some a') :
    (t' = t ∧ a' = a) ∨ (t' ≠ t ∧ f t' = some a') := by
  by_cases ht : t' = t
  · rw [ht, Function.update_self] at h
    exact .inl ⟨ht, (Option.some.inj h).symm⟩
  · rw [Function.update_of_ne ht] at h
    exact .inr ⟨ht, h⟩

theorem Memory.take (h : Memory s) (hfree : ¬ s.Owned a) (hgone : s.domain.gone a = false) :
    Memory { s with fresh := Function.update s.fresh t (some a) } := by
  refine ⟨h.live, h.gen, h.apart, h.gone, fun t' a' ht' => ?_, h.retiring⟩
  have hnobody : ∀ t, s.fresh t ≠ some a := fun t ht => hfree (.inr ⟨t, ht⟩)
  rcases update_some ht' with ⟨rfl, rfl⟩ | ⟨hne, hold⟩
  · refine ⟨hgone, fun k hk heq => hfree (.inl ⟨k, hk, heq⟩), fun t₁ ht₁ => ?_⟩
    rcases update_some ht₁ with ⟨rfl, -⟩ | ⟨-, hold⟩
    · rfl
    · exact absurd hold (hnobody t₁)
  · obtain ⟨hnot, hapart, hunique⟩ := h.fresh t' a' hold
    refine ⟨hnot, hapart, fun t₁ ht₁ => ?_⟩
    rcases update_some ht₁ with ⟨-, rfl⟩ | ⟨-, hold₁⟩
    · exact absurd hold (hnobody t')
    · exact hunique t₁ hold₁

theorem Memory.letGo (h : Memory s) :
    Memory { s with fresh := Function.update s.fresh t none } := by
  have hold : ∀ t' a, Function.update s.fresh t none t' = some a → s.fresh t' = some a := by
    intro t' a ht'
    by_cases ht : t' = t
    · rw [ht, Function.update_self] at ht'
      cases ht'
    · rwa [Function.update_of_ne ht] at ht'
  refine ⟨h.live, h.gen, h.apart, h.gone, fun t' a ht' => ?_, h.retiring⟩
  obtain ⟨hnot, hapart, hunique⟩ := h.fresh t' a (hold t' a ht')
  exact ⟨hnot, hapart, fun t₁ ht₁ => hunique t₁ (hold t₁ a ht₁)⟩

theorem Memory.link (h : Memory s) (hbooks : Hazard.Books s.domain) (hfresh : s.fresh t = some a)
    (hhead : s'.queue.head = s.queue.head) (hlast : s'.queue.last = s.queue.last + 1)
    (haddr : s'.addr = Function.update s.addr (s.queue.last + 1) a)
    (hbirth : s'.birth = Function.update s.birth (s.queue.last + 1) (s.domain.gen a))
    (hdeleted : s'.domain.deleted = s.domain.deleted) (hgen : s'.domain.gen = s.domain.gen)
    (hgone : s'.domain.gone = s.domain.gone) (hfresh' : s'.fresh = Function.update s.fresh t none)
    (hretiring : s'.retiring = s.retiring) : Memory s' := by
  obtain ⟨hnot, hfar, hmine⟩ := h.fresh t a hfresh
  have hnewAddr : s'.addr (s.queue.last + 1) = a := by rw [haddr, Function.update_self]
  have hnewBirth : s'.birth (s.queue.last + 1) = s.domain.gen a := by
    rw [hbirth, Function.update_self]
  have holdAddr : ∀ k, k ≠ s.queue.last + 1 → s'.addr k = s.addr k := fun k hk => by
    rw [haddr, Function.update_of_ne hk]
  have holdBirth : ∀ k, k ≠ s.queue.last + 1 → s'.birth k = s.birth k := fun k hk => by
    rw [hbirth, Function.update_of_ne hk]
  have hnew : s'.segment (s.queue.last + 1) ∉ s'.domain.deleted := by
    intro hin
    rw [hdeleted] at hin
    have hpast := hbooks.past _ hin
    unfold State.segment at hpast
    rw [hnewAddr, hnewBirth] at hpast
    exact Nat.lt_irrefl _ hpast
  have hlive : ∀ k, k ≠ s.queue.last + 1 → s'.Live k → s.Live k := by
    rintro k hk ⟨hle, hin⟩
    rw [hlast] at hle
    unfold State.segment at hin
    rw [holdAddr k hk, holdBirth k hk, hdeleted] at hin
    exact ⟨Nat.le_of_lt_succ (Nat.lt_of_le_of_ne hle hk), hin⟩
  have hlt : ∀ k, s.Live k → k ≠ s.queue.last + 1 := fun k hk heq => by
    have hle := hk.1
    omega
  have hfreshOld : ∀ t₁ a₁, s'.fresh t₁ = some a₁ → t₁ ≠ t ∧ s.fresh t₁ = some a₁ := by
    intro t₁ a₁ ht₁
    rw [hfresh'] at ht₁
    by_cases ht : t₁ = t
    · rw [ht, Function.update_self] at ht₁
      cases ht₁
    · exact ⟨ht, (Function.update_of_ne ht ..).symm.trans ht₁⟩
  refine ⟨fun k hk hkl => ?_, fun k hk => ?_, fun k k' hk hk' heq => ?_, fun k hk hgo => ?_,
    fun t₁ a₁ ht₁ => ?_, fun t₁ k ht₁ => ?_⟩
  · by_cases hself : k = s.queue.last + 1
    · rw [hself]
      exact hnew
    · rw [hhead] at hk
      rw [hlast] at hkl
      unfold State.segment
      rw [holdAddr k hself, holdBirth k hself, hdeleted]
      exact h.live k hk (Nat.le_of_lt_succ (Nat.lt_of_le_of_ne hkl hself))
  · by_cases hself : k = s.queue.last + 1
    · rw [hself, hgen, hnewAddr, hnewBirth]
    · rw [hgen, holdAddr k hself, holdBirth k hself]
      exact h.gen k (hlive k hself hk)
  · by_cases hself : k = s.queue.last + 1
    · by_cases hself' : k' = s.queue.last + 1
      · rw [hself, hself']
      · rw [hself, hnewAddr, holdAddr k' hself'] at heq
        exact absurd heq.symm (hfar k' (hlive k' hself' hk'))
    · by_cases hself' : k' = s.queue.last + 1
      · rw [hself', hnewAddr, holdAddr k hself] at heq
        exact absurd heq (hfar k (hlive k hself hk))
      · rw [holdAddr k hself, holdAddr k' hself'] at heq
        exact h.apart k k' (hlive k hself hk) (hlive k' hself' hk') heq
  · by_cases hself : k = s.queue.last + 1
    · rw [hself, hgone, hnewAddr, hnot] at hgo
      cases hgo
    · rw [hgone, holdAddr k hself] at hgo
      rw [hhead, hretiring]
      exact h.gone k (hlive k hself hk) hgo
  · obtain ⟨hne, hold⟩ := hfreshOld t₁ a₁ ht₁
    obtain ⟨hnot₁, hfar₁, hmine₁⟩ := h.fresh t₁ a₁ hold
    refine ⟨by rw [hgone]; exact hnot₁, fun k hk => ?_, fun t₂ ht₂ => hmine₁ t₂ (hfreshOld t₂ a₁ ht₂).2⟩
    by_cases hself : k = s.queue.last + 1
    · rw [hself, hnewAddr]
      rintro rfl
      exact hne (hmine t₁ hold)
    · rw [holdAddr k hself]
      exact hfar₁ k (hlive k hself hk)
  · rw [hretiring] at ht₁ ⊢
    rw [hhead]
    obtain ⟨hk, hkhead, hunique⟩ := h.retiring t₁ k ht₁
    refine ⟨⟨?_, ?_⟩, hkhead, hunique⟩
    · rw [hlast]
      exact Nat.le_succ_of_le hk.1
    · have hne := hlt k hk
      unfold State.segment
      rw [holdAddr k hne, holdBirth k hne, hdeleted]
      exact hk.2

/-- `head_` leaves a segment, which is to be retired. -/
theorem Memory.leave (h : Memory s) (hhead : s.queue.head = k) (hlinked : k ≤ s.queue.last)
    (hhead' : s'.queue.head = k + 1) (hlast : s'.queue.last = s.queue.last)
    (haddr : s'.addr = s.addr) (hbirth : s'.birth = s.birth)
    (hdeleted : s'.domain.deleted = s.domain.deleted) (hgen : s'.domain.gen = s.domain.gen)
    (hgone : s'.domain.gone = s.domain.gone) (hfresh : s'.fresh = s.fresh)
    (hretiring : s'.retiring = Function.update s.retiring t (some k)) : Memory s' := by
  have hseg : ∀ k, s'.segment k = s.segment k := fun k => by
    unfold State.segment
    rw [haddr, hbirth]
  have hlive : ∀ k, s'.Live k ↔ s.Live k := fun k => by
    unfold State.Live
    rw [hlast, hseg, hdeleted]
  have hself : s.Live k := ⟨hlinked, h.live k (Nat.le_of_eq hhead) hlinked⟩
  have hpast : ∀ t k', s.retiring t = some k' → k' < k := fun t k' ht => by
    rw [← hhead]
    exact (h.retiring t k' ht).2.1
  refine ⟨fun k' hk hkl => ?_, fun k' hk => ?_, fun k₁ k₂ hk₁ hk₂ heq => ?_, fun k' hk hgo => ?_,
    fun t₁ a ht₁ => ?_, fun t₁ k' ht₁ => ?_⟩
  · rw [hhead'] at hk
    rw [hlast] at hkl
    rw [hseg, hdeleted]
    refine h.live k' ?_ hkl
    rw [hhead]
    exact Nat.le_of_lt hk
  · rw [hgen, haddr, hbirth]
    exact h.gen k' ((hlive k').mp hk)
  · rw [haddr] at heq
    exact h.apart k₁ k₂ ((hlive k₁).mp hk₁) ((hlive k₂).mp hk₂) heq
  · rw [hgone, haddr] at hgo
    obtain ⟨hlt, hnot⟩ := h.gone k' ((hlive k').mp hk) hgo
    rw [hhead] at hlt
    refine ⟨?_, fun t₁ ht₁ => ?_⟩
    · rw [hhead']
      exact Nat.lt_succ_of_lt hlt
    · rw [hretiring] at ht₁
      rcases update_some ht₁ with ⟨-, rfl⟩ | ⟨-, hold⟩
      · exact Nat.lt_irrefl _ hlt
      · exact hnot t₁ hold
  · rw [hfresh] at ht₁ ⊢
    rw [hgone, haddr]
    obtain ⟨hnot, hfar, hunique⟩ := h.fresh t₁ a ht₁
    exact ⟨hnot, fun k hk => hfar k ((hlive k).mp hk), hunique⟩
  · rw [hretiring] at ht₁ ⊢
    rw [hlive, hhead']
    rcases update_some ht₁ with ⟨rfl, rfl⟩ | ⟨hne, hold⟩
    · refine ⟨hself, Nat.lt_succ_self _, fun t₂ ht₂ => ?_⟩
      rcases update_some ht₂ with ⟨rfl, -⟩ | ⟨-, hold⟩
      · rfl
      · exact absurd (hpast t₂ k' hold) (Nat.lt_irrefl _)
    · obtain ⟨hk, hlt, hunique⟩ := h.retiring t₁ k' hold
      refine ⟨hk, Nat.lt_succ_of_lt (hpast t₁ k' hold), fun t₂ ht₂ => ?_⟩
      rcases update_some ht₂ with ⟨-, rfl⟩ | ⟨-, hold₂⟩
      · exact absurd (hpast t₁ k' hold) (Nat.lt_irrefl _)
      · exact hunique t₂ hold₂

/-! ### Steps of the domain -/

theorem Memory.foreign (h : Memory s) (hsame : SameSegments s s') {p : Nat}
    (hforeign : ¬ s.Owned p) (hdeleted : s'.domain.deleted = s.domain.deleted)
    (hgen : s'.domain.gen = s.domain.gen)
    (hgone : s'.domain.gone = Function.update s.domain.gone p true) (hfresh : s'.fresh = s.fresh)
    (hretiring : s'.retiring = s.retiring) : Memory s' := by
  refine h.others hsame hdeleted hgen (fun p' howned => ?_) hfresh hretiring
  have hne : p' ≠ p := fun heq => hforeign (heq ▸ howned)
  rw [hgone, Function.update_of_ne hne]

/-- The thread that has moved `head_` retires the segment behind it. -/
theorem Memory.retire (h : Memory s) (hsame : SameSegments s s') (hk : s.retiring t = some k)
    (hdeleted : s'.domain.deleted = s.domain.deleted) (hgen : s'.domain.gen = s.domain.gen)
    (hgone : s'.domain.gone = Function.update s.domain.gone (s.addr k) true)
    (hfresh : s'.fresh = s.fresh) (hretiring : s'.retiring = Function.update s.retiring t none) :
    Memory s' := by
  have hlive : ∀ k, s'.Live k ↔ s.Live k := fun k => hsame.live hdeleted
  obtain ⟨hself, hpast, hunique⟩ := h.retiring t k hk
  have hold : ∀ t₁ k₁, s'.retiring t₁ = some k₁ → t₁ ≠ t ∧ s.retiring t₁ = some k₁ := by
    intro t₁ k₁ ht₁
    rw [hretiring] at ht₁
    by_cases ht : t₁ = t
    · rw [ht, Function.update_self] at ht₁
      cases ht₁
    · exact ⟨ht, (Function.update_of_ne ht ..).symm.trans ht₁⟩
  refine ⟨fun k' hhead hlast => ?_, fun k' hk' => ?_, fun k₁ k₂ hk₁ hk₂ heq => ?_,
    fun k' hk' hgo => ?_, fun t₁ a hta => ?_, fun t₁ k₁ ht₁ => ?_⟩
  · rw [hsame.head] at hhead
    rw [hsame.last] at hlast
    rw [hsame.segment, hdeleted]
    exact h.live k' hhead hlast
  · rw [hgen, hsame.addr, hsame.birth]
    exact h.gen k' ((hlive k').mp hk')
  · rw [hsame.addr] at heq
    exact h.apart k₁ k₂ ((hlive k₁).mp hk₁) ((hlive k₂).mp hk₂) heq
  · have hk₁ := (hlive k').mp hk'
    rw [hgone, hsame.addr] at hgo
    rw [hsame.head]
    by_cases haddr : s.addr k' = s.addr k
    · obtain rfl := h.apart k' k hk₁ hself haddr
      refine ⟨hpast, fun t₁ ht₁ => ?_⟩
      exact (hold t₁ k' ht₁).1 (hunique t₁ (hold t₁ k' ht₁).2)
    · rw [Function.update_of_ne haddr] at hgo
      obtain ⟨hlt, hnot⟩ := h.gone k' hk₁ hgo
      exact ⟨hlt, fun t₁ ht₁ => hnot t₁ (hold t₁ k' ht₁).2⟩
  · rw [hfresh] at hta ⊢
    obtain ⟨hnot, hfar, hmine⟩ := h.fresh t₁ a hta
    rw [hgone, Function.update_of_ne (hfar k hself).symm, hsame.addr]
    exact ⟨hnot, fun k hk => hfar k ((hlive k).mp hk), hmine⟩
  · obtain ⟨hk₁, hlt, hmine⟩ := h.retiring t₁ k₁ (hold t₁ k₁ ht₁).2
    rw [hlive, hsame.head]
    exact ⟨hk₁, hlt, fun t₂ ht₂ => hmine t₂ (hold t₂ k₁ ht₂).2⟩

theorem Memory.deletes (h : Memory s) (hsame : SameSegments s s') {x : Hazard.Retired}
    (hx : Hazard.Deletes s.domain x s'.domain) (hfresh : s'.fresh = s.fresh)
    (hretiring : s'.retiring = s.retiring) : Memory s' := by
  have hold : ∀ k, s'.Live k → s.Live k := fun k =>
    hsame.live_old fun y hy => by
      rw [hx.deleted]
      exact List.mem_cons_of_mem x hy
  have hgone : ∀ k, s.Live k → s.segment k = x → s.domain.gone (s.addr k) = true := by
    intro k _ heq
    rw [show s.addr k = x.p from congrArg Hazard.Retired.p heq]
    exact hx.retired
  -- an object at the address of a live segment is this segment
  have hapart : ∀ k, s'.Live k → s.addr k ≠ x.p := by
    intro k hk heq
    have hgen := h.gen k (hold k hk)
    rw [heq, ← hx.current] at hgen
    have hself : s.segment k = x := by
      unfold State.segment
      rw [heq, ← hgen]
    refine hk.2 ?_
    rw [hsame.segment, hx.deleted, hself]
    exact List.mem_cons_self
  refine ⟨fun k hhead hlast hin => ?_, fun k hk => ?_, fun k k' hk hk' heq => ?_,
    fun k hk hgo => ?_, fun t a hta => ?_, fun t k htk => ?_⟩
  · rw [hsame.head] at hhead
    rw [hsame.last] at hlast
    rw [hsame.segment, hx.deleted] at hin
    have hnot := h.live k hhead hlast
    rcases List.mem_cons.mp hin with heq | hin
    · have hlt := (h.gone k ⟨hlast, hnot⟩ (hgone k ⟨hlast, hnot⟩ heq)).1
      exact absurd hhead (Nat.not_le_of_lt hlt)
    · exact hnot hin
  · rw [hsame.addr, hsame.birth, hx.gen, Function.update_of_ne (hapart k hk)]
    exact h.gen k (hold k hk)
  · rw [hsame.addr] at heq
    exact h.apart k k' (hold k hk) (hold k' hk') heq
  · rw [hsame.addr, hx.gone, Function.update_of_ne (hapart k hk)] at hgo
    rw [hsame.head, hretiring]
    exact h.gone k (hold k hk) hgo
  · rw [hfresh] at hta ⊢
    obtain ⟨hnot, hfar, hmine⟩ := h.fresh t a hta
    rw [hsame.addr]
    refine ⟨?_, fun k hk => hfar k (hold k hk), hmine⟩
    rw [hx.gone]
    by_cases ha : a = x.p
    · rw [ha, Function.update_self]
    · rw [Function.update_of_ne ha]
      exact hnot
  · rw [hretiring] at htk ⊢
    rw [hsame.head]
    obtain ⟨hk, hlt, hmine⟩ := h.retiring t k htk
    refine ⟨⟨?_, fun hin => ?_⟩, hlt, hmine⟩
    · rw [hsame.last]
      exact hk.1
    · rw [hsame.segment, hx.deleted] at hin
      rcases List.mem_cons.mp hin with heq | hin
      · exact (h.gone k hk (hgone k hk heq)).2 t htk
      · exact hk.2 hin

/-- A step of the domain that is no `retire` of the queue. -/
theorem Memory.domain (h : Memory s) (hbooks : Hazard.Books s.domain)
    (hstep : Hazard.Step s.domain t e s'.domain) (hsame : SameSegments s s')
    (hforeign : ∀ p, e = .retire p → ¬ s.Owned p) (hfresh : s'.fresh = s.fresh)
    (hretiring : s'.retiring = s.retiring) : Memory s' := by
  rcases Hazard.step_keeps hbooks hstep with ⟨hdeleted, hgen, hgone | ⟨p, he, hgone⟩⟩ | ⟨x, hx⟩
  · exact h.pass hsame hdeleted hgen hgone hfresh hretiring
  · exact h.foreign hsame (hforeign p he) hdeleted hgen hgone hfresh hretiring
  · exact h.deletes hsame hx hfresh hretiring

theorem memory_new : Memory (State.new : State α) := by
  refine ⟨fun _ _ _ => nofun, fun _ _ => rfl, fun k k' hk hk' _ => ?_, fun _ _ => nofun,
    fun _ _ => nofun, fun _ _ => nofun⟩
  exact (Nat.le_zero.mp hk.1).trans (Nat.le_zero.mp hk'.1).symm

end Uvent.Queue.Recycling
