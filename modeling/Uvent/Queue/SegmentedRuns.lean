import Uvent.Queue.SegmentedInv

/-!
# Runs of the segmented queue

What a thread knows at each point of its call, that no other thread takes it
away, and that its own next step keeps it.  From this, in every interleaving: no
element is lost, delivered twice or delivered out of order.
-/

namespace Uvent.Queue.Segmented

open Uvent.Lib

variable {α : Type}

namespace Pc

def Publishes (k i : Nat) : Pc α → Prop
  | .publish _ _ s j stop _ _ => k = s ∧ j ≤ i ∧ i < stop
  | _ => False

def Holds (k i : Nat) : Pc α → Prop
  | .takeState _ s j stop _ => k = s ∧ j ≤ i ∧ i < stop
  | .takeEnq _ s j stop _ => k = s ∧ j ≤ i ∧ i < stop
  | .takeCas _ s j stop _ _ => k = s ∧ j ≤ i ∧ i < stop
  | .burn _ s _ j stop _ => k = s ∧ j ≤ i ∧ i < stop
  | .consume _ s j stop _ => k = s ∧ j ≤ i ∧ i < stop
  | _ => False

def call : Pc α → Option (Nat × List α)
  | .protectTail _ op vs => some (op, vs)
  | .claim _ op _ vs => some (op, vs)
  | .publish _ op _ i stop _ vs => some (op, vs.drop (stop - i))
  | .loadNext _ op _ vs => some (op, vs)
  | .link _ op _ fresh vs => some (op, (fresh.storage 0).toList ++ vs)
  | .swing _ op _ vs => some (op, vs)
  | .swingLast op _ => some (op, [])
  | _ => none

end Pc

/-- The positions `i` to `stop` are claimed by consumer `t`, and untouched. -/
structure Claimed (size t : Nat) (q : Chain α) (s i stop : Nat) : Prop where
  linked : s ≤ q.last
  lt : i < stop
  le : stop ≤ size
  mine : ∀ j, i ≤ j → j < stop → (q.segs s).taker j = some t ∧ (q.segs s).got j = []

/-- The positions `i` to `stop` are claimed for the first elements of `vs`. -/
structure Reserved (size t : Nat) (q : Chain α) (op s i stop : Nat) (vs : List α) : Prop where
  linked : s ≤ q.tail
  le : i ≤ stop
  stop_le : stop ≤ size
  enough : stop ≤ i + vs.length
  mine : ∀ j, i ≤ j → j < stop → (q.segs s).state j = .empty ∧
    ∃ v, vs[j - i]? = some v ∧ (q.segs s).fate j = .put t op v

def Fits (size t : Nat) (q : Chain α) : Pc α → Prop
  | .idle => True
  | .protectTail carry op vs => q.born op ≤ q.low size ∧ (carry = true → vs.length = 1)
  | .claim carry op s vs =>
      s ≤ q.tail ∧ q.born op ≤ s * size + min (q.segs s).enqPos size ∧
        (carry = true → vs.length = 1)
  | .publish carry op s i stop beyond vs =>
      Reserved size t q op s i stop vs ∧ (beyond = true → size ≤ (q.segs s).enqPos) ∧
        q.born op ≤ s * size + min (q.segs s).enqPos size ∧
        (carry = true → beyond = false ∧ i + vs.length ≤ stop)
  | .loadNext carry op s vs =>
      s ≤ q.tail ∧ size ≤ (q.segs s).enqPos ∧ q.born op ≤ s * size + size ∧
        (carry = true → vs.length = 1)
  | .link carry op s fresh vs =>
      s ≤ q.tail ∧ size ≤ (q.segs s).enqPos ∧ q.born op ≤ s * size + size ∧
        ∃ carried, fresh = freshSegment t op carried ∧
          (carry = true → carried ≠ none ∧ vs = []) ∧ (carry = false → carried = none)
  | .swing carry op s vs =>
      s < q.last ∧ q.born op ≤ s * size + size ∧ s ≤ q.tail ∧ (carry = true → vs.length = 1)
  | .swingLast _ s => s < q.last ∧ s ≤ q.tail
  | .protectHead _ => True
  | .loadDeq _ s => s ≤ q.last
  | .scan _ s d _ ready => s ≤ q.last ∧ d < size ∧ (0 < ready → (q.segs s).state d = .full)
  | .checkEmpty _ s _ => s ≤ q.last
  | .casDeq _ s d => s ≤ q.last ∧ d < size ∧ (q.segs s).state d = .full
  | .addDeq _ s n => s ≤ q.last ∧ 0 < n
  | .takeState _ s i stop _ => Claimed size t q s i stop
  | .takeEnq _ s i stop _ => Claimed size t q s i stop
  | .takeCas _ s i stop e _ => Claimed size t q s i stop ∧ e ≤ i
  | .burn _ s j i stop _ =>
      Claimed size t q s i stop ∧ (q.segs s).fate i = .burnt ∧
        ∀ x, j ≤ x → x ≤ i → (q.segs s).fate x = .burnt
  | .consume _ s i stop _ => Claimed size t q s i stop ∧ (q.segs s).state i = .full
  | .loadHeadNext _ s => s ≤ q.last ∧ size ≤ (q.segs s).deqPos
  | .swingHead _ s => s < q.last ∧ size ≤ (q.segs s).deqPos

structure Own (size t : Nat) (q : Chain α) (pc : Pc α) : Prop where
  published : ∀ k i op v, (q.segs k).fate i = .put t op v →
    (q.segs k).state i = .full ∨ pc.Publishes k i
  behind : ∀ k i op v, (q.segs k).fate i = .put t op v →
    k ≤ q.tail ∨ ∃ s, pc = .swingLast op s ∧ k = s + 1
  resolved : ∀ k i, (q.segs k).taker i = some t →
    (q.segs k).got i ≠ [] ∨ (q.segs k).fate i = .burnt ∨ pc.Holds k i
  call : ∀ op rest, pc.call = some (op, rest) → Active t q op ∧ q.sent op ++ rest = q.args op
  fits : Fits size t q pc

/-! ## No other thread takes it away -/

section Stable

variable {size t t' : Nat} {q q' : Chain α} {seg seg' : Segment α}

theorem SegStep.fate_put (h : SegStep t' seg seg') (hne : t' ≠ t) {i op : Nat} {v : α}
    (hput : seg'.fate i = .put t op v) : seg.fate i = .put t op v := by
  rcases h.fate i with hsame | ⟨-, hburnt | ⟨op', v', hnew⟩⟩
  · exact hsame.symm.trans hput
  · rw [hburnt] at hput
    simp at hput
  · rw [hnew] at hput
    exact absurd (Fate.put.inj hput).1 hne

theorem SegStep.fate_keep (h : SegStep t' seg seg') {i : Nat} (hfate : seg.fate i ≠ .free) :
    seg'.fate i = seg.fate i := by
  rcases h.fate i with hsame | ⟨hfree, -⟩
  · exact hsame
  · exact absurd hfree hfate

theorem SegStep.state_put (h : SegStep t' seg seg') (hne : t' ≠ t) {i op : Nat} {v : α}
    (hput : seg.fate i = .put t op v) : seg'.state i = seg.state i := by
  have hkeep : seg'.fate i = seg.fate i := h.fate_keep (by rw [hput]; simp)
  rcases h.state i with hsame | ⟨op', v', hnew, -⟩ | hburnt
  · exact hsame
  · rw [hkeep, hput] at hnew
    exact absurd (Fate.put.inj hnew).1.symm hne
  · rw [hput] at hburnt
    simp at hburnt

theorem SegStep.full (h : SegStep t' seg seg') (hok : SegOk size seg) {i : Nat}
    (hfull : seg.state i = .full) : seg'.state i = .full := by
  rcases h.state i with hsame | ⟨op', v', -, hnew⟩ | hburnt
  · exact hsame.trans hfull
  · exact hnew
  · have hcell := hok.cell i
    rw [hburnt] at hcell
    exact absurd hfull hcell.1

theorem SegStep.taker_keep (h : SegStep t' seg seg') {i c : Nat} (htaker : seg.taker i = some c) :
    seg'.taker i = some c := by
  rcases h.taker i with hsame | ⟨hnone, -⟩
  · exact hsame.trans htaker
  · rw [hnone] at htaker
    simp at htaker

theorem SegStep.taker_mine (h : SegStep t' seg seg') (hne : t' ≠ t) {i : Nat}
    (htaker : seg'.taker i = some t) : seg.taker i = some t := by
  rcases h.taker i with hsame | ⟨-, hnew⟩
  · exact hsame.symm.trans htaker
  · rw [hnew] at htaker
    exact absurd (Option.some.inj htaker) hne

theorem SegStep.got_mine (h : SegStep t' seg seg') (hne : t' ≠ t) {i : Nat}
    (htaker : seg.taker i = some t) : seg'.got i = seg.got i := by
  rcases h.got i with hsame | hother
  · exact hsame
  · rw [hother] at htaker
    exact absurd (Option.some.inj htaker) hne

theorem Guarantee.low_le (h : Guarantee t' q q') : q.low size ≤ q'.low size := by
  have henq := (h.segs q.tail).enq_le
  unfold Chain.low
  rcases Nat.lt_or_eq_of_le h.tail_le with hlt | heq
  · have hmul : (q.tail + 1) * size ≤ q'.tail * size := Nat.mul_le_mul_right size hlt
    rw [Nat.succ_mul] at hmul
    omega
  · rw [← heq]
    omega

theorem Active.stable {op : Nat} (h : Active t q op) (hg : Guarantee t' q q') (hne : t' ≠ t) :
    Active t q' op := by
  refine ⟨lt_of_lt_of_le h.issued hg.opCount_le, (hg.runner op h.issued).trans h.runner, ?_⟩
  intro hret
  rcases hg.returned op hret with hold | hrunner
  · exact h.running hold
  · exact hne (hrunner.symm.trans h.runner)

theorem Claimed.stable {s i stop : Nat} (h : Claimed size t q s i stop) (hg : Guarantee t' q q')
    (hne : t' ≠ t) : Claimed size t q' s i stop := by
  refine ⟨h.linked.trans hg.last_le, h.lt, h.le, ?_⟩
  intro j hj hstop
  obtain ⟨htaker, hgot⟩ := h.mine j hj hstop
  exact ⟨(hg.segs s).taker_keep htaker, ((hg.segs s).got_mine hne htaker).trans hgot⟩

theorem Reserved.stable {op s i stop : Nat} {vs : List α} (h : Reserved size t q op s i stop vs)
    (hg : Guarantee t' q q') (hne : t' ≠ t) : Reserved size t q' op s i stop vs := by
  refine ⟨h.linked.trans hg.tail_le, h.le, h.stop_le, h.enough, ?_⟩
  intro j hj hstop
  obtain ⟨hempty, v, hv, hfate⟩ := h.mine j hj hstop
  refine ⟨((hg.segs s).state_put hne hfate).trans hempty, v, hv, ?_⟩
  exact ((hg.segs s).fate_keep (by rw [hfate]; simp)).trans hfate

/-- The bound a producer carries for the positions it may get. -/
theorem Guarantee.bound_le (h : Guarantee t' q q') (s : Nat) :
    s * size + min (q.segs s).enqPos size ≤ s * size + min (q'.segs s).enqPos size := by
  have := (h.segs s).enq_le
  omega

theorem Fits.stable {pc : Pc α} (hs : Shared size q) (hown : Own size t q pc)
    (hg : Guarantee t' q q') (hne : t' ≠ t) : Fits size t q' pc := by
  have hfits := hown.fits
  have hcall := hown.call
  cases pc with
  | idle => trivial
  | protectTail carry op vs =>
      have hborn := hg.born op (hcall op _ rfl).1.issued
      exact ⟨by rw [hborn]; exact hfits.1.trans hg.low_le, hfits.2⟩
  | claim carry op s vs =>
      have hborn := hg.born op (hcall op _ rfl).1.issued
      exact ⟨hfits.1.trans hg.tail_le, by rw [hborn]; exact hfits.2.1.trans (hg.bound_le s),
        hfits.2.2⟩
  | publish carry op s i stop beyond vs =>
      have hborn := hg.born op (hcall op _ rfl).1.issued
      exact ⟨hfits.1.stable hg hne, fun hover => (hfits.2.1 hover).trans (hg.segs s).enq_le,
        by rw [hborn]; exact hfits.2.2.1.trans (hg.bound_le s), hfits.2.2.2⟩
  | loadNext carry op s vs =>
      have hborn := hg.born op (hcall op _ rfl).1.issued
      exact ⟨hfits.1.trans hg.tail_le, hfits.2.1.trans (hg.segs s).enq_le,
        by rw [hborn]; exact hfits.2.2.1, hfits.2.2.2⟩
  | link carry op s fresh vs =>
      have hborn := hg.born op (hcall op _ rfl).1.issued
      exact ⟨hfits.1.trans hg.tail_le, hfits.2.1.trans (hg.segs s).enq_le,
        by rw [hborn]; exact hfits.2.2.1, hfits.2.2.2⟩
  | swing carry op s vs =>
      have hborn := hg.born op (hcall op _ rfl).1.issued
      exact ⟨lt_of_lt_of_le hfits.1 hg.last_le, by rw [hborn]; exact hfits.2.1,
        hfits.2.2.1.trans hg.tail_le, hfits.2.2.2⟩
  | swingLast op s => exact ⟨lt_of_lt_of_le hfits.1 hg.last_le, hfits.2.trans hg.tail_le⟩
  | protectHead max => trivial
  | loadDeq max s => exact le_trans hfits hg.last_le
  | scan max s d limit ready =>
      exact ⟨hfits.1.trans hg.last_le, hfits.2.1,
        fun hpos => (hg.segs s).full (hs.seg s) (hfits.2.2 hpos)⟩
  | checkEmpty max s d => exact le_trans hfits hg.last_le
  | casDeq max s d =>
      exact ⟨hfits.1.trans hg.last_le, hfits.2.1, (hg.segs s).full (hs.seg s) hfits.2.2⟩
  | addDeq max s n => exact ⟨hfits.1.trans hg.last_le, hfits.2⟩
  | takeState max s i stop out => exact Claimed.stable hfits hg hne
  | takeEnq max s i stop out => exact Claimed.stable hfits hg hne
  | takeCas max s i stop e out => exact ⟨hfits.1.stable hg hne, hfits.2⟩
  | burn max s j i stop out =>
      have hkeep : ∀ x, (q.segs s).fate x = .burnt → (q'.segs s).fate x = .burnt :=
        fun x hx => ((hg.segs s).fate_keep (by rw [hx]; simp)).trans hx
      exact ⟨hfits.1.stable hg hne, hkeep i hfits.2.1,
        fun x hj hi => hkeep x (hfits.2.2 x hj hi)⟩
  | consume max s i stop out =>
      exact ⟨hfits.1.stable hg hne, (hg.segs s).full (hs.seg s) hfits.2⟩
  | loadHeadNext max s => exact ⟨hfits.1.trans hg.last_le, hfits.2.trans (hg.segs s).deq_le⟩
  | swingHead max s =>
      exact ⟨lt_of_lt_of_le hfits.1 hg.last_le, hfits.2.trans (hg.segs s).deq_le⟩

theorem Own.stable {pc : Pc α} (hs : Shared size q) (hown : Own size t q pc)
    (hg : Guarantee t' q q') (hne : t' ≠ t) : Own size t q' pc := by
  refine ⟨?_, ?_, ?_, ?_, Fits.stable hs hown hg hne⟩
  · intro k i op v hput
    have hold := (hg.segs k).fate_put hne hput
    rw [(hg.segs k).state_put hne hold]
    exact hown.published k i op v hold
  · intro k i op v hput
    rcases hown.behind k i op v ((hg.segs k).fate_put hne hput) with hle | hlast
    · exact .inl (hle.trans hg.tail_le)
    · exact .inr hlast
  · intro k i htaker
    have hold := (hg.segs k).taker_mine hne htaker
    rcases hown.resolved k i hold with hgot | hburnt | hholds
    · rw [(hg.segs k).got_mine hne hold]
      exact .inl hgot
    · exact .inr (.inl (((hg.segs k).fate_keep (by rw [hburnt]; simp)).trans hburnt))
    · exact .inr (.inr hholds)
  · intro op rest hcall
    obtain ⟨hactive, hsent⟩ := hown.call op rest hcall
    refine ⟨hactive.stable hg hne, ?_⟩
    rw [hg.args op hactive.issued]
    rcases hg.sent op hactive.issued with hsame | hrunner
    · rw [hsame]
      exact hsent
    · exact absurd (hrunner.symm.trans hactive.runner) hne

end Stable

/-! ## The next step of a thread -/

section Steps

variable {size t s : Nat} {q q' : Chain α} {pc pc' : Pc α}

def Kept (size t : Nat) (q : Chain α) (next : Chain α × Pc α) : Prop :=
  Shared size next.1 ∧ Own size t next.1 next.2 ∧ Guarantee t q next.1

/-- The shared state stays; nothing that was claimed is dropped. -/
theorem Own.to_pc (h : Own size t q pc) (hlast : ∀ op s, pc ≠ .swingLast op s)
    (hpub : ∀ k i, pc.Publishes k i → pc'.Publishes k i)
    (hholds : ∀ k i, pc.Holds k i → (q.segs k).fate i = .burnt ∨ pc'.Holds k i)
    (hcall : ∀ op rest, pc'.call = some (op, rest) → pc.call = some (op, rest))
    (hfits : Fits size t q pc') : Own size t q pc' := by
  refine ⟨?_, ?_, ?_, fun op rest hpc => h.call op rest (hcall op rest hpc), hfits⟩
  · intro k i op v hput
    rcases h.published k i op v hput with hfull | hp
    · exact .inl hfull
    · exact .inr (hpub k i hp)
  · intro k i op v hput
    rcases h.behind k i op v hput with hle | ⟨s, habs, -⟩
    · exact .inl hle
    · exact absurd habs (hlast op s)
  · intro k i htaker
    rcases h.resolved k i htaker with hgot | hburnt | hp
    · exact .inl hgot
    · exact .inr (.inl hburnt)
    · exact .inr (hholds k i hp)

theorem Own.reads (hs : Shared size q) (h : Own size t q pc) (hlast : ∀ op s, pc ≠ .swingLast op s)
    (hpub : ∀ k i, pc.Publishes k i → pc'.Publishes k i)
    (hholds : ∀ k i, pc.Holds k i → (q.segs k).fate i = .burnt ∨ pc'.Holds k i)
    (hcall : ∀ op rest, pc'.call = some (op, rest) → pc.call = some (op, rest))
    (hfits : Fits size t q pc') : Kept size t q (q, pc') :=
  ⟨hs, h.to_pc hlast hpub hholds hcall hfits, .refl t q⟩

theorem Own.modified (h : Own size t q pc) (s : Nat) (f : Segment α → Segment α) (pc' : Pc α)
    (hlast : ∀ op s, pc ≠ .swingLast op s)
    (hpub : ∀ i op v, (f (q.segs s)).fate i = .put t op v →
      (f (q.segs s)).state i = .full ∨ pc'.Publishes s i)
    (hpubOther : ∀ k i, k ≠ s → pc.Publishes k i → pc'.Publishes k i)
    (hbehind : ∀ i op v, (f (q.segs s)).fate i = .put t op v →
      (q.segs s).fate i = .put t op v ∨ s ≤ q.tail)
    (hres : ∀ i, (f (q.segs s)).taker i = some t →
      (f (q.segs s)).got i ≠ [] ∨ (f (q.segs s)).fate i = .burnt ∨ pc'.Holds s i)
    (hresOther : ∀ k i, k ≠ s → pc.Holds k i → pc'.Holds k i) :
    (∀ k i op v, ((q.modifySeg s f).segs k).fate i = .put t op v →
      ((q.modifySeg s f).segs k).state i = .full ∨ pc'.Publishes k i) ∧
    (∀ k i op v, ((q.modifySeg s f).segs k).fate i = .put t op v → k ≤ q.tail) ∧
    ∀ k i, ((q.modifySeg s f).segs k).taker i = some t →
      ((q.modifySeg s f).segs k).got i ≠ [] ∨ ((q.modifySeg s f).segs k).fate i = .burnt ∨
        pc'.Holds k i := by
  refine ⟨?_, ?_, ?_⟩
  · intro k i op v hput
    by_cases hk : k = s
    · subst hk
      rw [modifySeg_self] at hput ⊢
      exact hpub i op v hput
    · rw [modifySeg_of_ne hk] at hput ⊢
      rcases h.published k i op v hput with hfull | hp
      · exact .inl hfull
      · exact .inr (hpubOther k i hk hp)
  · intro k i op v hput
    have hold : (q.segs k).fate i = .put t op v ∨ k ≤ q.tail := by
      by_cases hk : k = s
      · subst hk
        rw [modifySeg_self] at hput
        exact hbehind i op v hput
      · rw [modifySeg_of_ne hk] at hput
        exact .inl hput
    rcases hold with hput | hle
    · rcases h.behind k i op v hput with hle | ⟨s, habs, -⟩
      · exact hle
      · exact absurd habs (hlast op s)
    · exact hle
  · intro k i htaker
    by_cases hk : k = s
    · subst hk
      rw [modifySeg_self] at htaker ⊢
      exact hres i htaker
    · rw [modifySeg_of_ne hk] at htaker ⊢
      rcases h.resolved k i htaker with hgot | hburnt | hp
      · exact .inl hgot
      · exact .inr (.inl hburnt)
      · exact .inr (.inr (hresOther k i hk hp))

/-! ### Producers -/

theorem Own.all_behind (hs : Shared size q) (h : Own size t q pc) {op : Nat} {rest : List α}
    (hcall : pc.call = some (op, rest)) (hlast : ∀ op s, pc ≠ .swingLast op s) :
    ∀ k i t' v, (q.segs k).fate i = .put t' op v → k ≤ q.tail := by
  intro k i t' v hput
  have hrunner := (hs.put k i t' op v hput).runner
  obtain rfl : t' = t := hrunner.symm.trans (h.call op rest hcall).1.runner
  rcases h.behind k i op v hput with hle | ⟨s, habs, -⟩
  · exact hle
  · exact absurd habs (hlast op s)

theorem Own.finish {q₁ : Chain α} (hs : Shared size q₁) (h : Own size t q₁ pc)
    (hg : Guarantee t q q₁) {op : Nat} (hcall : pc.call = some (op, [])) (hactive : Active t q op)
    (hbehind : ∀ k i t' v, (q₁.segs k).fate i = .put t' op v → k ≤ q₁.tail)
    (hall : ∀ k i op v, (q₁.segs k).fate i = .put t op v → k ≤ q₁.tail)
    (hpub : ∀ k i, ¬pc.Publishes k i) (hholds : ∀ k i, ¬pc.Holds k i) :
    Kept size t q (q₁.finish op, .idle) := by
  obtain ⟨hactive₁, hsent⟩ := h.call op [] hcall
  rw [List.append_nil] at hsent
  refine ⟨hs.finish hactive₁.issued hsent hbehind, ⟨?_, ?_, ?_, ?_, trivial⟩,
    hg.finish hactive.runner⟩
  · intro k i op' v hput
    rcases h.published k i op' v hput with hfull | hp
    · exact .inl hfull
    · exact absurd hp (hpub k i)
  · exact fun k i op' v hput => .inl (hall k i op' v hput)
  · intro k i htaker
    rcases h.resolved k i htaker with hgot | hburnt | hp
    · exact .inl hgot
    · exact .inr (.inl hburnt)
    · exact absurd hp (hholds k i)
  · intro op' rest habs
    simp [Pc.call] at habs

theorem Own.nextClaim (hs : Shared size q) (h : Own size t q pc) {carry : Bool} {op : Nat}
    {vs : List α} (hcall : pc.call = some (op, vs)) (hlast : ∀ op s, pc ≠ .swingLast op s)
    (hpub : ∀ k i, ¬pc.Publishes k i) (hholds : ∀ k i, ¬pc.Holds k i)
    (hfits : vs ≠ [] → Fits size t q (.claim carry op s vs)) :
    Kept size t q (nextClaim q carry op s vs) := by
  cases vs with
  | nil =>
      refine h.finish hs (.refl t q) hcall (h.call op [] hcall).1
        (h.all_behind hs hcall hlast) ?_ hpub hholds
      intro k i op' v hput
      rcases h.behind k i op' v hput with hle | ⟨s, habs, -⟩
      · exact hle
      · exact absurd habs (hlast op' s)
  | cons v vs =>
      refine h.reads hs hlast (fun k i hp => absurd hp (hpub k i))
        (fun k i hp => absurd hp (hholds k i)) ?_ (hfits (by simp))
      intro op' rest hpc
      exact hcall.trans hpc

theorem claim_kept {carry : Bool} {op : Nat} {vs : List α} (spurious : Bool)
    (hs : Shared size q) (h : Own size t q (.claim carry op s vs)) :
    Kept size t q (exec size t spurious q (.claim carry op s vs)) := by
  obtain ⟨htail, hborn, hcarry⟩ := h.fits
  obtain ⟨hactive, hsent⟩ := h.call op vs rfl
  have hseg := hs.seg s
  have hfate := claimCells_fate hseg t op vs
  obtain ⟨pos, hpos⟩ : ∃ pos, pos = (q.segs s).enqPos := ⟨_, rfl⟩
  have henq : ((q.claimCells size t op s vs).segs s).enqPos = pos + vs.length := by
    have hself : (q.claimCells size t op s vs).segs s = (q.segs s).claimCells size t op vs :=
      Function.update_self ..
    rw [hself, hpos]
    rfl
  have hkept : Shared size (q.claimCells size t op s vs) :=
    hs.claimCells (htail.trans hs.tail_le) hactive hborn vs
  have hguar := guarantee_claimCells hs hactive s vs
  have hactive' : Active t (q.claimCells size t op s vs) op :=
    ⟨hactive.issued, hactive.runner, hactive.running⟩
  have hsent' : (q.claimCells size t op s vs).sent op = q.sent op ++ vs.take (size - pos) := by
    rw [hpos]
    exact Function.update_self ..
  obtain ⟨pc', hpc', hcase⟩ : ∃ pc',
      exec size t spurious q (.claim carry op s vs) = (q.claimCells size t op s vs, pc') ∧
      ((size ≤ pos ∧ pc' = .loadNext carry op s vs) ∨
        (pos < size ∧ pc' = .publish carry op s pos (min (pos + vs.length) size)
          (decide (pos + vs.length > size)) vs)) := by
    rw [hpos]
    by_cases hle : size ≤ (q.segs s).enqPos
    · exact ⟨_, rfl, .inl ⟨hle, if_pos hle⟩⟩
    · exact ⟨_, rfl, .inr ⟨by omega, if_neg hle⟩⟩
  rw [hpc']
  have hcells := h.modified s (Segment.claimCells size t op vs) pc' (by simp)
    ?_ (fun k i _ hp => hp.elim) ?_ ?_ (fun k i _ hp => hp.elim)
  · refine ⟨hkept, ⟨hcells.1, fun k i op' v hput => .inl (hcells.2.1 k i op' v hput),
      hcells.2.2, ?_, ?_⟩, hguar⟩
    · intro op' rest hcall
      rcases hcase with ⟨hle, rfl⟩ | ⟨hlt, rfl⟩
      · obtain ⟨rfl, rfl⟩ := Prod.mk.inj (Option.some.inj hcall)
        refine ⟨hactive', ?_⟩
        rw [hsent', Nat.sub_eq_zero_of_le hle, List.take_zero, List.append_nil]
        exact hsent
      · obtain ⟨rfl, rfl⟩ := Prod.mk.inj (Option.some.inj hcall)
        refine ⟨hactive', ?_⟩
        have hdrop : vs.drop (min (pos + vs.length) size - pos) = vs.drop (size - pos) := by
          by_cases hfit : pos + vs.length ≤ size
          · rw [List.drop_of_length_le (by omega), List.drop_of_length_le (by omega)]
          · rw [Nat.min_eq_right (by omega)]
        rw [hsent', hdrop, List.append_assoc, List.take_append_drop]
        exact hsent
    · dsimp only
      rcases hcase with ⟨hle, rfl⟩ | ⟨hlt, rfl⟩
      · exact ⟨htail, by omega, (show q.born op ≤ s * size + size by omega), hcarry⟩
      · refine ⟨⟨htail, by omega, Nat.min_le_right _ _, by omega, ?_⟩, ?_, ?_, ?_⟩
        · intro j hj hstop
          rcases hfate j with ⟨-, hfree⟩ | ⟨v, hv, -, -, hfree, hput⟩
          · have hunclaimed := hfree ((hseg.claimed j).mpr (.inl (by omega)))
            omega
          · have hself : (q.claimCells size t op s vs).segs s =
                (q.segs s).claimCells size t op vs := Function.update_self ..
            have hcell := hseg.cell j
            rw [hfree] at hcell
            rw [hself]
            exact ⟨hcell.1, v, by rw [hpos]; exact hv, hput⟩
        · intro hover
          have := of_decide_eq_true hover
          omega
        · rw [henq]
          exact (show q.born op ≤ s * size + min (pos + vs.length) size by omega)
        · intro hc
          have := hcarry hc
          exact ⟨decide_eq_false (by omega), by omega⟩
  · intro i op' v hput
    rcases hfate i with ⟨hsame, -⟩ | ⟨u, hu, hle, hlt, -, -⟩
    · rw [hsame] at hput
      rcases h.published s i op' v hput with hfull | hp
      · exact .inl hfull
      · exact hp.elim
    · have hlen := (List.getElem?_eq_some_iff.mp hu).1
      rcases hcase with ⟨hfull, -⟩ | ⟨-, rfl⟩
      · omega
      · exact .inr ⟨rfl, by omega, by omega⟩
  · exact fun _ _ _ _ => .inr htail
  · intro i htaker
    rcases h.resolved s i htaker with hgot | hburnt | hp
    · exact .inl hgot
    · exact .inr (.inl (((segStep_claimCells hseg t op vs).fate_keep
        (by rw [hburnt]; simp)).trans hburnt))
    · exact hp.elim

theorem publish_kept {carry beyond : Bool} {op i stop : Nat} {vs : List α} (spurious : Bool)
    (hs : Shared size q) (h : Own size t q (.publish carry op s i stop beyond vs)) :
    Kept size t q (exec size t spurious q (.publish carry op s i stop beyond vs)) := by
  obtain ⟨hres, hover, hborn, hcarry⟩ := h.fits
  rw [exec.eq_def]
  dsimp only
  by_cases hlt : i < stop
  · rw [if_pos hlt]
    cases vs with
    | nil =>
        have := hres.enough
        simp at this
        omega
    | cons v vs =>
        obtain ⟨hempty, u, hu, hfate⟩ := hres.mine i le_rfl hlt
        rw [Nat.sub_self, List.getElem?_cons_zero] at hu
        obtain rfl := Option.some.inj hu
        have hlast := hres.linked.trans hs.tail_le
        have hcells := h.modified s (Segment.publishCell i v)
          (.publish carry op s (i + 1) stop beyond vs) (by simp) ?_ ?_ ?_ ?_
          (fun k j _ hp => hp.elim)
        · refine ⟨hs.publishCell hlast hfate hempty, ⟨hcells.1,
            fun k j op' v' hput => .inl (hcells.2.1 k j op' v' hput), hcells.2.2, ?_, ?_⟩,
            guarantee_modifySeg (segStep_publishCell hfate)⟩
          · intro op' rest hcall
            have hdrop : (v :: vs).drop (stop - i) = vs.drop (stop - (i + 1)) := by
              rw [show stop - i = stop - (i + 1) + 1 by omega, List.drop_succ_cons]
            obtain ⟨hactive, hsent⟩ := h.call op' rest (by rw [← hcall, Pc.call, Pc.call, hdrop])
            exact ⟨⟨hactive.issued, hactive.runner, hactive.running⟩, hsent⟩
          · have hself : (q.modifySeg s (.publishCell i v)).segs s =
                (q.segs s).publishCell i v := modifySeg_self
            refine ⟨⟨hres.linked, hlt, hres.stop_le, ?_, ?_⟩, ?_, ?_, ?_⟩
            · have := hres.enough
              simp only [List.length_cons] at this
              omega
            · intro j hj hstop
              obtain ⟨hempty', u, hu, hput⟩ := hres.mine j (by omega) hstop
              have hstate : ((q.segs s).publishCell i v).state j = (q.segs s).state j :=
                Function.update_of_ne (by omega) ..
              rw [hself, hstate]
              refine ⟨hempty', u, ?_, hput⟩
              rw [show j - i = j - (i + 1) + 1 by omega, List.getElem?_cons_succ] at hu
              exact hu
            · rw [hself]
              exact hover
            · rw [hself]
              exact hborn
            · intro hc
              have := hcarry hc
              simp only [List.length_cons] at this
              exact ⟨this.1, by omega⟩
        · intro j op' v' hput
          by_cases hj : j = i
          · subst hj
            exact .inl (Function.update_self ..)
          · have hstate : ((q.segs s).publishCell i v).state j = (q.segs s).state j :=
              Function.update_of_ne hj ..
            rw [hstate]
            rcases h.published s j op' v' hput with hfull | ⟨-, hle, hstop⟩
            · exact .inl hfull
            · exact .inr ⟨rfl, by omega, hstop⟩
        · rintro k j hk ⟨habs, -⟩
          exact absurd habs hk
        · exact fun _ _ _ hput => .inl hput
        · intro j htaker
          rcases h.resolved s j htaker with hgot | hburnt | hp
          · exact .inl hgot
          · exact .inr (.inl hburnt)
          · exact hp.elim
  · rw [if_neg hlt]
    have hnone : ∀ k j, ¬(Pc.publish carry op s i stop beyond vs).Publishes k j := by
      rintro k j ⟨-, hle, hstop⟩
      omega
    have hcall : (Pc.publish carry op s i stop beyond vs).call = some (op, vs) := by
      rw [Pc.call, show stop - i = 0 by omega, List.drop_zero]
    by_cases hov : beyond = true
    · rw [if_pos hov]
      refine h.reads hs (by simp) (fun k j hp => absurd hp (hnone k j)) (fun k j hp => hp.elim)
        (fun op' rest hpc => hcall.trans hpc) ?_
      refine ⟨hres.linked, hover hov, by omega, fun hc => ?_⟩
      rw [(hcarry hc).1] at hov
      simp at hov
    · rw [if_neg hov]
      refine h.nextClaim hs hcall (by simp) hnone (fun k j hp => hp) fun hne => ?_
      refine ⟨hres.linked, hborn, fun hc => ?_⟩
      have hle := (hcarry hc).2
      have hlen := List.length_pos_iff.mpr hne
      omega

theorem loadNext_kept {carry : Bool} {op : Nat} {vs : List α} (spurious : Bool)
    (hs : Shared size q) (h : Own size t q (.loadNext carry op s vs)) :
    Kept size t q (exec size t spurious q (.loadNext carry op s vs)) := by
  obtain ⟨htail, hfull, hborn, hcarry⟩ := h.fits
  rw [exec.eq_def]
  dsimp only
  by_cases hlt : s < q.last
  · rw [if_pos hlt]
    exact h.reads hs (by simp) (fun k i hp => hp.elim) (fun k i hp => hp.elim)
      (fun op' rest hpc => hpc) ⟨hlt, hborn, htail, hcarry⟩
  · rw [if_neg hlt]
    by_cases hc : carry = true
    · -- the value moves into the first cell of the fresh segment
      rw [if_pos hc]
      obtain ⟨v, rfl⟩ := List.length_eq_one_iff.mp (hcarry hc)
      refine h.reads hs (by simp) (fun k i hp => hp.elim) (fun k i hp => hp.elim)
        (fun op' rest hpc => hpc) ?_
      exact ⟨htail, hfull, hborn, some v, rfl, fun _ => ⟨by simp, rfl⟩,
        fun habs => absurd hc (by simp [habs])⟩
    · rw [if_neg hc]
      refine h.reads hs (by simp) (fun k i hp => hp.elim) (fun k i hp => hp.elim)
        (fun op' rest hpc => hpc) ?_
      exact ⟨htail, hfull, hborn, none, rfl, fun habs => absurd habs hc, fun _ => rfl⟩

theorem freshSegment_storage (t op : Nat) (carried : Option α) :
    (freshSegment t op carried).storage 0 = carried := by
  cases carried <;> rfl

theorem link_kept {carry : Bool} {op : Nat} {fresh : Segment α} {vs : List α} (spurious : Bool)
    (hsize : 0 < size) (hs : Shared size q) (h : Own size t q (.link carry op s fresh vs)) :
    Kept size t q (exec size t spurious q (.link carry op s fresh vs)) := by
  obtain ⟨htail, hfull, hborn, carried, rfl, hcarry, hbulk⟩ := h.fits
  obtain ⟨hactive, hsent⟩ := h.call op _ rfl
  rw [freshSegment_storage] at hsent
  rw [exec.eq_def]
  dsimp only
  by_cases hlast : s = q.last
  · rw [if_pos hlast]
    have hother : ∀ k, k ≠ s + 1 →
        (q.append op s (freshSegment t op carried)).segs k = q.segs k := by
      intro k hk
      exact Function.update_of_ne hk ..
    have hself : (q.append op s (freshSegment t op carried)).segs (s + 1) =
        freshSegment t op carried := Function.update_self ..
    have hsent' : (q.append op s (freshSegment t op carried)).sent op =
        q.sent op ++ carried.toList := by
      refine (Function.update_self ..).trans ?_
      rw [freshSegment_storage]
      rfl
    refine ⟨hs.append hsize hactive hlast htail hfull hborn carried, ⟨?_, ?_, ?_, ?_, ?_⟩,
      guarantee_append hs hactive hlast carried⟩
    · intro k i op' v hput
      by_cases hk : k = s + 1
      · subst hk
        rw [hself] at hput ⊢
        obtain ⟨rfl, -, -, rfl⟩ := freshSegment_fate hput
        exact .inl rfl
      · rw [hother k hk] at hput ⊢
        rcases h.published k i op' v hput with hf | hp
        · exact .inl hf
        · exact hp.elim
    · intro k i op' v hput
      by_cases hk : k = s + 1
      · subst hk
        rw [hself] at hput
        obtain ⟨rfl, -, rfl, rfl⟩ := freshSegment_fate hput
        have hc : carry = true := by
          by_contra hc
          have := hbulk (by simpa using hc)
          simp at this
        exact .inr ⟨s, if_pos hc, rfl⟩
      · rw [hother k hk] at hput
        rcases h.behind k i op' v hput with hle | ⟨s', habs, -⟩
        · exact .inl hle
        · simp at habs
    · intro k i htaker
      by_cases hk : k = s + 1
      · subst hk
        rw [hself] at htaker
        cases carried <;> simp [freshSegment, Segment.new] at htaker
      · rw [hother k hk] at htaker ⊢
        rcases h.resolved k i htaker with hgot | hburnt | hp
        · exact .inl hgot
        · exact .inr (.inl hburnt)
        · exact hp.elim
    · intro op' rest hpc
      have hop : op' = op ∧ rest = vs := by
        by_cases hc : carry = true
        · rw [if_pos hc] at hpc
          obtain ⟨rfl, rfl⟩ := Prod.mk.inj (Option.some.inj hpc)
          exact ⟨rfl, (hcarry hc).2.symm⟩
        · rw [if_neg hc] at hpc
          obtain ⟨rfl, rfl⟩ := Prod.mk.inj (Option.some.inj hpc)
          exact ⟨rfl, rfl⟩
      obtain ⟨rfl, rfl⟩ := hop
      refine ⟨⟨hactive.issued, hactive.runner, hactive.running⟩, ?_⟩
      rw [hsent', List.append_assoc]
      exact hsent
    · by_cases hc : carry = true
      · rw [if_pos hc]
        exact ⟨Nat.lt_succ_self s, htail⟩
      · rw [if_neg hc]
        exact ⟨Nat.lt_succ_self s, hborn, htail, fun habs => absurd habs hc⟩
  · -- somebody else linked a segment first: the value moves back
    rw [if_neg hlast, freshSegment_storage]
    have hle := htail.trans hs.tail_le
    refine h.reads hs (by simp) (fun k i hp => hp.elim) (fun k i hp => hp.elim) ?_ ?_
    · intro op' rest hpc
      rw [← hpc, Pc.call, Pc.call, freshSegment_storage]
    · refine ⟨by omega, hborn, htail, fun hc => ?_⟩
      obtain ⟨hsome, rfl⟩ := hcarry hc
      obtain ⟨v, rfl⟩ := Option.ne_none_iff_exists'.mp hsome
      rfl

theorem swing_kept {carry : Bool} {op : Nat} {vs : List α} (spurious : Bool)
    (hs : Shared size q) (h : Own size t q (.swing carry op s vs)) :
    Kept size t q (exec size t spurious q (.swing carry op s vs)) := by
  obtain ⟨hlt, hborn, htail, hcarry⟩ := h.fits
  obtain ⟨hactive, hsent⟩ := h.call op vs rfl
  have hguar := guarantee_swingTail q t s
  have hseg : (q.swingTail s).segs = q.segs := by rw [swingTail_eq]
  have hnext : s + 1 ≤ (q.swingTail s).tail := by
    rw [swingTail_tail]
    split <;> omega
  rw [exec.eq_def]
  refine ⟨hs.swingTail hlt, ⟨?_, ?_, ?_, ?_, ?_, hcarry⟩, hguar⟩
  · intro k i op' v hput
    have hput' : (q.segs k).fate i = .put t op' v := by rw [← hseg]; exact hput
    rcases h.published k i op' v hput' with hf | hp
    · exact .inl (by rw [← hseg] at hf; exact hf)
    · exact hp.elim
  · intro k i op' v hput
    have hput' : (q.segs k).fate i = .put t op' v := by rw [← hseg]; exact hput
    rcases h.behind k i op' v hput' with hle | ⟨s', habs, -⟩
    · exact .inl (hle.trans hguar.tail_le)
    · simp at habs
  · intro k i htaker
    have htaker' : (q.segs k).taker i = some t := by rw [← hseg]; exact htaker
    have hold := h.resolved k i htaker'
    rw [← hseg] at hold
    rcases hold with hgot | hburnt | hp
    · exact .inl hgot
    · exact .inr (.inl hburnt)
    · exact hp.elim
  · intro op' rest hpc
    obtain ⟨rfl, rfl⟩ := Prod.mk.inj (Option.some.inj hpc)
    dsimp only
    rw [swingTail_eq]
    exact ⟨⟨hactive.issued, hactive.runner, hactive.running⟩, hsent⟩
  · have hbornEq : (q.swingTail s).born op = q.born op := by rw [swingTail_eq]
    have hmul : (s + 1) * size ≤ (q.swingTail s).tail * size := Nat.mul_le_mul_right size hnext
    rw [Nat.succ_mul] at hmul
    have hlow : (q.swingTail s).tail * size ≤ (q.swingTail s).low size := Nat.le_add_right _ _
    exact (show (q.swingTail s).born op ≤ (q.swingTail s).low size by omega)

theorem swingLast_kept {op : Nat} (spurious : Bool) (hs : Shared size q)
    (h : Own size t q (.swingLast op s)) :
    Kept size t q (exec size t spurious q (.swingLast op s)) := by
  obtain ⟨hlt, htail⟩ := h.fits
  obtain ⟨hactive, hsent⟩ := h.call op [] rfl
  have hguar := guarantee_swingTail q t s
  have heq := swingTail_eq q s
  have hseg : (q.swingTail s).segs = q.segs := by rw [heq]
  have hnext : s + 1 ≤ (q.swingTail s).tail := by
    rw [swingTail_tail]
    split <;> omega
  have hall : ∀ k i op' v, ((q.swingTail s).segs k).fate i = .put t op' v →
      k ≤ (q.swingTail s).tail := by
    intro k i op' v hput
    rw [hseg] at hput
    rcases h.behind k i op' v hput with hle | ⟨s', hs', rfl⟩
    · exact hle.trans hguar.tail_le
    · obtain ⟨-, rfl⟩ := Pc.swingLast.inj hs'
      exact hnext
  have hown : Own size t (q.swingTail s) (.swingLast op s) := by
    refine ⟨?_, fun k i op' v hput => .inl (hall k i op' v hput), ?_, ?_, ?_⟩
    · rw [hseg]
      exact h.published
    · rw [hseg]
      exact h.resolved
    · intro op' rest hpc
      obtain ⟨rfl, rfl⟩ := Prod.mk.inj (Option.some.inj hpc)
      rw [heq]
      exact ⟨⟨hactive.issued, hactive.runner, hactive.running⟩, hsent⟩
    · rw [heq]
      exact ⟨hlt, htail.trans hguar.tail_le⟩
  refine hown.finish (hs.swingTail hlt) hguar rfl hactive ?_ hall (fun k i hp => hp)
    (fun k i hp => hp)
  intro k i t' v hput
  have hput' : (q.segs k).fate i = .put t' op v := by rw [← hseg]; exact hput
  obtain rfl : t' = t := (hs.put k i t' op v hput').runner.symm.trans hactive.runner
  exact hall k i op v hput

/-! ### Consumers -/

/-- Nothing was moved out of a position that nobody has claimed. -/
theorem SegOk.got_of_untaken {seg : Segment α} (h : SegOk size seg) {i : Nat}
    (hnone : seg.taker i = none) : seg.got i = [] := by
  have hcell := h.cell i
  cases hfate : seg.fate i with
  | free =>
      rw [hfate] at hcell
      exact hcell.2
  | burnt =>
      rw [hfate] at hcell
      exact hcell.2
  | put producer op v =>
      rw [hfate] at hcell
      rcases hcell.2.2 with hgot | ⟨c, -, habs, -⟩
      · exact hgot
      · rw [hnone] at habs
        simp at habs

theorem SegOk.burnt_of_dead {seg : Segment α} (h : SegOk size seg) {i : Nat}
    (hdead : seg.state i = .dead) : seg.fate i = .burnt := by
  have hcell := h.cell i
  cases hfate : seg.fate i with
  | burnt => rfl
  | free =>
      rw [hfate] at hcell
      have := hdead.symm.trans hcell.1
      simp at this
  | put producer op v =>
      rw [hfate] at hcell
      exact absurd hdead hcell.1

/-- A step of a consumer on one segment that leaves the states and the fates as
they are, or closes cells nobody had claimed. -/
theorem Own.consumer (hs : Shared size q) (h : Own size t q pc) (s : Nat)
    (f : Segment α → Segment α) (pc' : Pc α) (hidle : pc'.call = none)
    (hlast : ∀ op s, pc ≠ .swingLast op s) (hpub : ∀ k i, ¬pc.Publishes k i)
    (hshared : Shared size (q.modifySeg s f)) (hstep : SegStep t (q.segs s) (f (q.segs s)))
    (hfate : ∀ i op v, (f (q.segs s)).fate i = .put t op v → (q.segs s).fate i = .put t op v)
    (hres : ∀ i, (f (q.segs s)).taker i = some t →
      (f (q.segs s)).got i ≠ [] ∨ (f (q.segs s)).fate i = .burnt ∨ pc'.Holds s i)
    (hresOther : ∀ k i, k ≠ s → pc.Holds k i → pc'.Holds k i)
    (hfits : Fits size t (q.modifySeg s f) pc') : Kept size t q (q.modifySeg s f, pc') := by
  have hcells := h.modified s f pc' hlast ?_ (fun k i _ hp => absurd hp (hpub k i))
    (fun i op v hput => .inl (hfate i op v hput)) hres hresOther
  · refine ⟨hshared, ⟨hcells.1, fun k i op v hput => .inl (hcells.2.1 k i op v hput),
      hcells.2.2, ?_, hfits⟩, guarantee_modifySeg hstep⟩
    intro op rest habs
    rw [hidle] at habs
    simp at habs
  · intro i op v hput
    have hold := hfate i op v hput
    rcases h.published s i op v hold with hfull | hp
    · exact .inl (hstep.full (hs.seg s) hfull)
    · exact absurd hp (hpub s i)

theorem claimed_claimTaken (hs : Shared size q) (hlast : s ≤ q.last) {n : Nat} (hn : 0 < n)
    (hpos : (q.segs s).deqPos < size) :
    Claimed size t (q.modifySeg s (.claimTaken size t n)) s (q.segs s).deqPos
      (min ((q.segs s).deqPos + n) size) := by
  refine ⟨hlast, by omega, Nat.min_le_right _ _, ?_⟩
  intro j hj hstop
  rw [modifySeg_self]
  rcases claimTaken_taker (hs.seg s) t n j with ⟨-, hnone⟩ | ⟨-, -, hnone, hnew⟩
  · have hout := hnone (((hs.seg s).taken j).mpr (.inl hj))
    omega
  · exact ⟨hnew, (hs.seg s).got_of_untaken hnone⟩

theorem claimTaken_kept (hs : Shared size q) (h : Own size t q pc) (hlinked : s ≤ q.last)
    {n : Nat} (hidle : pc'.call = none) (hlast : ∀ op s, pc ≠ .swingLast op s)
    (hpub : ∀ k i, ¬pc.Publishes k i) (hholds : ∀ k i, ¬pc.Holds k i)
    (hnew : ∀ i, (q.segs s).deqPos ≤ i → i < min ((q.segs s).deqPos + n) size → pc'.Holds s i)
    (hfits : Fits size t (q.modifySeg s (.claimTaken size t n)) pc') :
    Kept size t q (q.modifySeg s (.claimTaken size t n), pc') := by
  refine h.consumer hs s _ pc' hidle hlast hpub (hs.claimTaken hlinked t n)
    (segStep_claimTaken (hs.seg s) t n) (fun _ _ _ hput => hput) ?_
    (fun k i _ hp => absurd hp (hholds k i)) hfits
  intro i htaker
  rcases claimTaken_taker (hs.seg s) t n i with ⟨hsame, -⟩ | ⟨hle, hlt, -, -⟩
  · rw [hsame] at htaker
    rcases h.resolved s i htaker with hgot | hburnt | hp
    · exact .inl hgot
    · exact .inr (.inl hburnt)
    · exact absurd hp (hholds s i)
  · exact .inr (.inr (hnew i hle hlt))

theorem casDeq_kept {max : Option Nat} {d : Nat} (spurious : Bool) (hs : Shared size q)
    (h : Own size t q (.casDeq max s d)) :
    Kept size t q (exec size t spurious q (.casDeq max s d)) := by
  obtain ⟨hlinked, hd, hfull⟩ := h.fits
  rw [exec.eq_def]
  dsimp only
  by_cases hcas : (q.segs s).deqPos = d ∧ spurious = false
  · rw [if_pos hcas]
    have hmin : min ((q.segs s).deqPos + 1) size = d + 1 := by omega
    have hclaimed : Claimed size t (q.modifySeg s (.claimTaken size t 1)) s _ _ :=
      claimed_claimTaken hs hlinked Nat.one_pos (by omega)
    rw [hmin, hcas.1] at hclaimed
    refine claimTaken_kept hs h hlinked rfl (by simp) (fun k i hp => hp) (fun k i hp => hp) ?_
      ⟨hclaimed, by rw [modifySeg_self]; exact hfull⟩
    intro i hle hlt
    exact ⟨rfl, by omega, by omega⟩
  · rw [if_neg hcas]
    exact h.reads hs (by simp) (fun k i hp => hp.elim) (fun k i hp => hp.elim)
      (fun _ _ hpc => hpc) hlinked

theorem addDeq_kept {max : Option Nat} {n : Nat} (spurious : Bool) (hs : Shared size q)
    (h : Own size t q (.addDeq max s n)) :
    Kept size t q (exec size t spurious q (.addDeq max s n)) := by
  obtain ⟨hlinked, hn⟩ := h.fits
  rw [exec.eq_def]
  dsimp only
  by_cases hpos : size ≤ (q.segs s).deqPos
  · rw [if_pos hpos]
    refine claimTaken_kept hs h hlinked rfl (by simp) (fun k i hp => hp) (fun k i hp => hp) ?_
      hlinked
    intro i hle hlt
    omega
  · rw [if_neg hpos]
    refine claimTaken_kept hs h hlinked rfl (by simp) (fun k i hp => hp) (fun k i hp => hp) ?_
      (claimed_claimTaken hs hlinked hn (by omega))
    intro i hle hlt
    exact ⟨rfl, hle, hlt⟩

theorem takeCas_kept {max : Option Nat} {i stop e : Nat} {out : List (Option α)} (spurious : Bool)
    (hs : Shared size q) (h : Own size t q (.takeCas max s i stop e out)) :
    Kept size t q (exec size t spurious q (.takeCas max s i stop e out)) := by
  obtain ⟨hclaimed, hle⟩ := h.fits
  have hi : i < size := by
    have := hclaimed.lt
    have := hclaimed.le
    omega
  rw [exec.eq_def]
  dsimp only
  by_cases hcas : (q.segs s).enqPos = e ∧ spurious = false
  · rw [if_pos hcas]
    have hfate := burnCells_fate (hs.seg s) hcas.1 i
    have hburnt : ∀ x, e ≤ x → x ≤ i →
        ((q.modifySeg s (.burnCells e i)).segs s).fate x = .burnt := by
      intro x hx hxi
      rw [modifySeg_self]
      rcases hfate x with ⟨-, hout⟩ | ⟨-, -, -, hb⟩
      · exact absurd ⟨hx, hxi⟩ hout
      · exact hb
    have hstep := segStep_burnCells (hs.seg s) hcas.1 hle t
    refine h.consumer hs s _ _ rfl (by simp) (fun k i hp => hp)
      (hs.burnCells hclaimed.linked hcas.1 hle hi t) hstep ?_ ?_ ?_ ?_
    · intro x op v hput
      rcases hfate x with ⟨hsame, -⟩ | ⟨-, -, -, hb⟩
      · exact hsame.symm.trans hput
      · rw [hb] at hput
        simp at hput
    · intro x htaker
      rcases h.resolved s x htaker with hgot | hb | hp
      · exact .inl hgot
      · exact .inr (.inl ((hstep.fate_keep (by rw [hb]; simp)).trans hb))
      · exact .inr (.inr hp)
    · exact fun k x _ hp => hp
    · refine ⟨⟨hclaimed.linked, hclaimed.lt, hclaimed.le, ?_⟩, hburnt i hle le_rfl, hburnt⟩
      intro j hj hstop
      rw [modifySeg_self]
      exact hclaimed.mine j hj hstop
  · rw [if_neg hcas]
    exact h.reads hs (by simp) (fun k i hp => hp.elim) (fun k i hp => .inr hp)
      (fun _ _ hpc => hpc) hclaimed

theorem nextTake_cases (q : Chain α) (max : Option Nat) (s i stop : Nat) (out : List (Option α)) :
    ∃ pc', nextTake q max s i stop out = (q, pc') ∧ pc'.call = none ∧
      ((i < stop ∧ pc' = .takeState max s i stop out) ∨
        (¬i < stop ∧ (pc' = .loadDeq max s ∨ pc' = .idle))) := by
  unfold nextTake
  split
  · rename_i hlt
    exact ⟨_, rfl, rfl, .inl ⟨hlt, rfl⟩⟩
  · rename_i hlt
    split
    · exact ⟨_, rfl, rfl, .inr ⟨hlt, .inl rfl⟩⟩
    · exact ⟨_, rfl, rfl, .inr ⟨hlt, .inr rfl⟩⟩

theorem Claimed.next {i stop : Nat} (h : Claimed size t q s i stop) (hlt : i + 1 < stop) :
    Claimed size t q s (i + 1) stop :=
  ⟨h.linked, hlt, h.le, fun j hj hstop => h.mine j (by omega) hstop⟩

/-- A position of a claim turned out to be burnt. -/
theorem Own.skip (hs : Shared size q) (h : Own size t q pc) {max : Option Nat} {i stop : Nat}
    {out : List (Option α)} (hclaimed : Claimed size t q s i stop)
    (hburnt : (q.segs s).fate i = .burnt) (hlast : ∀ op s, pc ≠ .swingLast op s)
    (hpub : ∀ k i, ¬pc.Publishes k i) (hholds : ∀ k j, pc.Holds k j → k = s ∧ i ≤ j ∧ j < stop) :
    Kept size t q (nextTake q max s (i + 1) stop out) := by
  obtain ⟨pc', hnext, hidle, hcase⟩ := nextTake_cases q max s (i + 1) stop out
  rw [hnext]
  refine h.reads hs hlast (fun k j hp => absurd hp (hpub k j)) ?_ ?_ ?_
  · intro k j hp
    obtain ⟨rfl, hle, hlt⟩ := hholds k j hp
    by_cases hj : j = i
    · exact .inl (hj ▸ hburnt)
    · rcases hcase with ⟨-, rfl⟩ | ⟨hend, -⟩
      · exact .inr ⟨rfl, by omega, hlt⟩
      · omega
  · intro op rest habs
    rw [hidle] at habs
    simp at habs
  · rcases hcase with ⟨hlt, rfl⟩ | ⟨-, rfl | rfl⟩
    · exact hclaimed.next hlt
    · exact hclaimed.linked
    · trivial

theorem burn_kept {max : Option Nat} {j i stop : Nat} {out : List (Option α)} (spurious : Bool)
    (hs : Shared size q) (h : Own size t q (.burn max s j i stop out)) :
    Kept size t q (exec size t spurious q (.burn max s j i stop out)) := by
  obtain ⟨hclaimed, hself, hburnt⟩ := h.fits
  rw [exec.eq_def]
  dsimp only
  by_cases hj : j ≤ i
  · rw [if_pos hj]
    refine h.consumer hs s _ _ rfl (by simp) (fun k i hp => hp)
      (hs.markDead hclaimed.linked (hburnt j le_rfl hj) t)
      (segStep_markDead (hburnt j le_rfl hj) t) (fun _ _ _ hput => hput)
      (fun x htaker => h.resolved s x htaker) (fun k x _ hp => hp) ?_
    refine ⟨⟨hclaimed.linked, hclaimed.lt, hclaimed.le, ?_⟩, ?_, ?_⟩
    · intro x hx hstop
      rw [modifySeg_self]
      exact hclaimed.mine x hx hstop
    · rw [modifySeg_self]
      exact hself
    · intro x hx hxi
      rw [modifySeg_self]
      exact hburnt x (by omega) hxi
  · rw [if_neg hj]
    exact h.skip hs hclaimed hself (by simp) (fun k x hp => hp) (fun k x hp => hp)

theorem consume_kept {max : Option Nat} {i stop : Nat} {out : List (Option α)} (spurious : Bool)
    (hs : Shared size q) (h : Own size t q (.consume max s i stop out)) :
    Kept size t q (exec size t spurious q (.consume max s i stop out)) := by
  obtain ⟨hclaimed, hfull⟩ := h.fits
  obtain ⟨htaker, hgot⟩ := hclaimed.mine i le_rfl hclaimed.lt
  rw [exec.eq_def]
  dsimp only
  obtain ⟨pc', hnext, hidle, hcase⟩ := nextTake_cases (q.modifySeg s (.consumeCell t i)) max s
    (i + 1) stop (out ++ [(q.segs s).storage i])
  rw [hnext]
  have hgot' : ((q.segs s).consumeCell t i).got i ≠ [] := by
    have hself : ((q.segs s).consumeCell t i).got i =
        (t, (q.segs s).storage i) :: (q.segs s).got i := Function.update_self ..
    rw [hself]
    simp
  have hother : ∀ x, x ≠ i → ((q.segs s).consumeCell t i).got x = (q.segs s).got x :=
    fun x hx => Function.update_of_ne hx ..
  refine h.consumer hs s _ pc' hidle (by simp) (fun k x hp => hp)
    (hs.consumeCell hclaimed.linked htaker hfull hgot) (segStep_consumeCell htaker)
    (fun _ _ _ hput => hput) ?_ ?_ ?_
  · intro x htaken
    by_cases hx : x = i
    · exact .inl (hx ▸ hgot')
    · rw [hother x hx]
      rcases h.resolved s x htaken with hg | hb | ⟨-, hle, hlt⟩
      · exact .inl hg
      · exact .inr (.inl hb)
      · rcases hcase with ⟨-, rfl⟩ | ⟨hend, -⟩
        · exact .inr (.inr ⟨rfl, by omega, hlt⟩)
        · omega
  · rintro k x hk ⟨rfl, -⟩
    exact absurd rfl hk
  · rcases hcase with ⟨hlt, rfl⟩ | ⟨-, rfl | rfl⟩
    · refine ⟨hclaimed.linked, hlt, hclaimed.le, ?_⟩
      intro j hj hstop
      rw [modifySeg_self, hother j (by omega)]
      exact hclaimed.mine j (by omega) hstop
    · exact hclaimed.linked
    · trivial

theorem swingHead_kept {max : Option Nat} (spurious : Bool) (hs : Shared size q)
    (h : Own size t q (.swingHead max s)) :
    Kept size t q (exec size t spurious q (.swingHead max s)) := by
  obtain ⟨hlt, hpassed⟩ := h.fits
  have hown : Own size t q (.protectHead max) :=
    h.to_pc (by simp) (fun k i hp => hp.elim) (fun k i hp => hp.elim) (fun _ _ hpc => hpc) trivial
  refine ⟨hs.swingHead hlt hpassed, ?_, guarantee_swingHead q t s⟩
  have heq : q.swingHead s = { q with head := (q.swingHead s).head } := by
    unfold Chain.swingHead
    split <;> rfl
  rw [exec.eq_def]
  dsimp only
  rw [heq]
  refine ⟨hown.published, hown.behind, hown.resolved, ?_, trivial⟩
  intro op rest habs
  simp [Pc.call] at habs

theorem scan_kept {max : Option Nat} {d limit ready : Nat} (spurious : Bool) (hs : Shared size q)
    (h : Own size t q (.scan max s d limit ready)) :
    Kept size t q (exec size t spurious q (.scan max s d limit ready)) := by
  obtain ⟨hlinked, hd, hready⟩ := h.fits
  rw [exec.eq_def]
  dsimp only
  by_cases hmore : ready < limit ∧ (q.segs s).state (d + ready) = .full
  · rw [if_pos hmore]
    refine h.reads hs (by simp) (fun k i hp => hp.elim) (fun k i hp => hp.elim)
      (fun _ _ hpc => hpc) ⟨hlinked, hd, fun _ => ?_⟩
    by_cases hzero : ready = 0
    · have hfull := hmore.2
      rw [hzero, Nat.add_zero] at hfull
      exact hfull
    · exact hready (by omega)
  · rw [if_neg hmore]
    unfold afterScan
    split
    · exact h.reads hs (by simp) (fun k i hp => hp.elim) (fun k i hp => hp.elim)
        (fun _ _ hpc => hpc) hlinked
    · split
      · exact h.reads hs (by simp) (fun k i hp => hp.elim) (fun k i hp => hp.elim)
          (fun _ _ hpc => hpc) ⟨hlinked, hd, hready (by omega)⟩
      · refine h.reads hs (by simp) (fun k i hp => hp.elim) (fun k i hp => hp.elim)
          (fun _ _ hpc => hpc) ⟨hlinked, ?_⟩
        split <;> omega

theorem takeState_kept {max : Option Nat} {i stop : Nat} {out : List (Option α)} (spurious : Bool)
    (hs : Shared size q) (h : Own size t q (.takeState max s i stop out)) :
    Kept size t q (exec size t spurious q (.takeState max s i stop out)) := by
  have hclaimed : Claimed size t q s i stop := h.fits
  rw [exec.eq_def]
  dsimp only
  cases hstate : (q.segs s).state i with
  | empty =>
      exact h.reads hs (by simp) (fun k i hp => hp.elim) (fun k i hp => .inr hp)
        (fun _ _ hpc => hpc) hclaimed
  | full =>
      exact h.reads hs (by simp) (fun k i hp => hp.elim) (fun k i hp => .inr hp)
        (fun _ _ hpc => hpc) ⟨hclaimed, hstate⟩
  | dead =>
      exact h.skip hs hclaimed ((hs.seg s).burnt_of_dead hstate) (by simp) (fun k x hp => hp)
        (fun k x hp => hp)

theorem exec_kept (spurious : Bool) (hsize : 0 < size) (hs : Shared size q)
    (h : Own size t q pc) : Kept size t q (exec size t spurious q pc) := by
  cases pc with
  | idle => exact ⟨hs, h, .refl t q⟩
  | protectTail carry op vs =>
      refine h.nextClaim hs rfl (by simp) (fun k i hp => hp) (fun k i hp => hp) fun _ => ?_
      exact ⟨le_rfl, h.fits.1, h.fits.2⟩
  | claim carry op s vs => exact claim_kept spurious hs h
  | publish carry op s i stop beyond vs => exact publish_kept spurious hs h
  | loadNext carry op s vs => exact loadNext_kept spurious hs h
  | link carry op s fresh vs => exact link_kept spurious hsize hs h
  | swing carry op s vs => exact swing_kept spurious hs h
  | swingLast op s => exact swingLast_kept spurious hs h
  | protectHead max =>
      exact h.reads hs (by simp) (fun k i hp => hp.elim) (fun k i hp => hp.elim)
        (fun _ _ hpc => hpc) hs.head_le
  | loadDeq max s =>
      have hlinked : s ≤ q.last := h.fits
      rw [exec.eq_def]
      dsimp only
      by_cases hd : size ≤ (q.segs s).deqPos
      · rw [if_pos hd]
        exact h.reads hs (by simp) (fun k i hp => hp.elim) (fun k i hp => hp.elim)
          (fun _ _ hpc => hpc) ⟨hlinked, hd⟩
      · rw [if_neg hd]
        exact h.reads hs (by simp) (fun k i hp => hp.elim) (fun k i hp => hp.elim)
          (fun _ _ hpc => hpc) ⟨hlinked, by omega, fun habs => absurd habs (Nat.lt_irrefl 0)⟩
  | scan max s d limit ready => exact scan_kept spurious hs h
  | checkEmpty max s d =>
      rw [exec.eq_def]
      dsimp only
      split
      · exact h.reads hs (by simp) (fun k i hp => hp.elim) (fun k i hp => hp.elim)
          (fun _ _ hpc => hpc) trivial
      · exact h.reads hs (by simp) (fun k i hp => hp.elim) (fun k i hp => hp.elim)
          (fun _ _ hpc => hpc) h.fits
  | casDeq max s d => exact casDeq_kept spurious hs h
  | addDeq max s n => exact addDeq_kept spurious hs h
  | takeState max s i stop out => exact takeState_kept spurious hs h
  | takeEnq max s i stop out =>
      have hclaimed : Claimed size t q s i stop := h.fits
      rw [exec.eq_def]
      dsimp only
      split
      · exact h.reads hs (by simp) (fun k i hp => hp.elim) (fun k i hp => .inr hp)
          (fun _ _ hpc => hpc) hclaimed
      · exact h.reads hs (by simp) (fun k i hp => hp.elim) (fun k i hp => .inr hp)
          (fun _ _ hpc => hpc) ⟨hclaimed, by omega⟩
  | takeCas max s i stop e out => exact takeCas_kept spurious hs h
  | burn max s j i stop out => exact burn_kept spurious hs h
  | consume max s i stop out => exact consume_kept spurious hs h
  | loadHeadNext max s =>
      obtain ⟨hlinked, hpassed⟩ := h.fits
      rw [exec.eq_def]
      dsimp only
      split
      · rename_i hlt
        exact h.reads hs (by simp) (fun k i hp => hp.elim) (fun k i hp => hp.elim)
          (fun _ _ hpc => hpc) ⟨hlt, hpassed⟩
      · exact h.reads hs (by simp) (fun k i hp => hp.elim) (fun k i hp => hp.elim)
          (fun _ _ hpc => hpc) trivial
  | swingHead max s => exact swingHead_kept spurious hs h

theorem begin_kept {carry : Bool} {vs : List α} (hs : Shared size q) (h : Own size t q .idle)
    (hcarry : carry = true → vs.length = 1) :
    Kept size t q (q.begin size t vs, .protectTail carry q.opCount vs) := by
  refine ⟨hs.begin t vs, ⟨?_, ?_, ?_, ?_, ?_, hcarry⟩, guarantee_begin q t vs⟩
  · exact fun k i op v hput => h.published k i op v hput
  · intro k i op v hput
    rcases h.behind k i op v hput with hle | ⟨s, habs, -⟩
    · exact .inl hle
    · simp at habs
  · exact fun k i htaker => h.resolved k i htaker
  · intro op rest hpc
    obtain ⟨rfl, rfl⟩ := Prod.mk.inj (Option.some.inj hpc)
    refine ⟨⟨Nat.lt_succ_self _, Function.update_self .., ?_⟩, ?_⟩
    · intro hret
      have hold : .returned q.opCount ∈ q.history := by simpa [Chain.begin] using hret
      exact absurd (hs.known _ (.inr hold)) (Nat.lt_irrefl _)
    · have hsent : (q.begin size t vs).sent q.opCount = [] := Function.update_self ..
      have hargs : (q.begin size t vs).args q.opCount = vs := Function.update_self ..
      rw [hsent, hargs, List.nil_append]
  · have hborn : (q.begin size t vs).born q.opCount = q.low size := Function.update_self ..
    exact hborn.le

theorem start_kept (c : Call α) (hs : Shared size q) (h : Own size t q .idle) :
    Kept size t q (c.start size t q) := by
  cases c with
  | enqueue v => exact begin_kept hs h fun _ => rfl
  | enqueueBulk vs =>
      cases vs with
      | nil => exact ⟨hs, h, .refl t q⟩
      | cons v vs => exact begin_kept hs h fun habs => by simp at habs
  | tryDequeue =>
      exact h.reads hs (by simp) (fun k i hp => hp.elim) (fun k i hp => hp.elim)
        (fun _ _ hpc => hpc) trivial
  | tryDequeueBulk maxItems =>
      rw [Call.start.eq_def]
      dsimp only
      split
      · exact ⟨hs, h, .refl t q⟩
      · exact h.reads hs (by simp) (fun k i hp => hp.elim) (fun k i hp => hp.elim)
          (fun _ _ hpc => hpc) trivial

end Steps

/-! ## Every interleaving -/

theorem own_new {size : Nat} (t : Nat) : Own size t (Chain.new : Chain α) .idle := by
  refine ⟨?_, ?_, ?_, ?_, trivial⟩
  · simp [Chain.new, Segment.new]
  · simp [Chain.new, Segment.new]
  · simp [Chain.new, Segment.new]
  · simp [Pc.call]

def segmentedThreads {size : Nat} (hsize : 0 < size) :
    RelyGuarantee (Step size) (Chain.new : Chain α) .idle where
  shared := Shared size
  own := Own size
  rely t q q' := ∃ t', t' ≠ t ∧ Guarantee t' q q'
  start_shared := shared_new
  start_own := own_new
  keeps := by
    intro t q pc q' pc' hstep hs h
    have hkept : Kept size t q (q', pc') := by
      cases hstep with
      | call c => exact start_kept c hs h
      | run spurious busy => exact exec_kept spurious hsize hs h
    exact ⟨hkept.1, hkept.2.1, fun t' hne => ⟨t, hne.symm, hkept.2.2⟩⟩
  stable := by
    rintro t q pc q' hs h ⟨t', hne, hg⟩
    exact h.stable hs hg hne

/-- What the threads of a queue may count on, whatever their interleaving.  A
position is `k * size + i`, the order in which the consumers claim them. -/
structure Sound (size : Nat) (w : World Nat (Chain α) (Pc α)) : Prop where
  once : ∀ k i, ((w.shared.segs k).got i).length ≤ 1
  claimer : ∀ k i c v, (c, v) ∈ (w.shared.segs k).got i → (w.shared.segs k).taker i = some c ∧
    ∃ t op u, (w.shared.segs k).fate i = .put t op u ∧ v = some u
  delivered : ∀ k i t op v c, (w.shared.segs k).fate i = .put t op v →
    (w.shared.segs k).taker i = some c →
    (w.shared.segs k).got i = [(c, some v)] ∨ (w.own c).Holds k i
  ahead : ∀ k i t op v, (w.shared.segs k).fate i = .put t op v →
    (w.shared.segs k).taker i = none → w.shared.head ≤ k
  alive : ∀ k i t op v, (w.shared.segs k).fate i = .put t op v →
    (w.shared.segs k).state i ≠ .dead
  published : ∀ k i t op v, (w.shared.segs k).fate i = .put t op v →
    (w.shared.segs k).state i = .full ∨ (w.own t).Publishes k i
  intact : ∀ t op rest, (w.own t).call = some (op, rest) →
    w.shared.sent op ++ rest = w.shared.args op
  returned : ∀ op, .returned op ∈ w.shared.history → w.shared.sent op = w.shared.args op
  fifo : ∀ x y, Before w.shared.history x y → ∀ k i t v k' i' t' v',
    (w.shared.segs k).fate i = .put t x v → (w.shared.segs k').fate i' = .put t' y v' →
    k * size + i < k' * size + i'

section Sound

variable {size : Nat} {q : Chain α}

theorem SegOk.got_once {seg : Segment α} (h : SegOk size seg) (i : Nat) :
    seg.got i = [] ∨ ∃ c t op v, seg.got i = [(c, some v)] ∧ seg.taker i = some c ∧
      seg.fate i = .put t op v := by
  have hcell := h.cell i
  cases hfate : seg.fate i with
  | free =>
      rw [hfate] at hcell
      exact .inl hcell.2
  | burnt =>
      rw [hfate] at hcell
      exact .inl hcell.2
  | put t op v =>
      rw [hfate] at hcell
      rcases hcell.2.2 with hnone | ⟨c, hgot, htaker, -⟩
      · exact .inl hnone
      · exact .inr ⟨c, t, op, v, hgot, htaker, rfl⟩

theorem SegOk.not_dead {seg : Segment α} (h : SegOk size seg) {i t op : Nat} {v : α}
    (hfate : seg.fate i = .put t op v) : seg.state i ≠ .dead := by
  have hcell := h.cell i
  rw [hfate] at hcell
  exact hcell.1

theorem Own.delivered {pc : Pc α} {k i t op c : Nat} {v : α} (hs : Shared size q)
    (h : Own size c q pc) (hfate : (q.segs k).fate i = .put t op v)
    (htaker : (q.segs k).taker i = some c) :
    (q.segs k).got i = [(c, some v)] ∨ pc.Holds k i := by
  rcases h.resolved k i htaker with hgot | hburnt | hholds
  · rcases (hs.seg k).got_once i with hnone | ⟨c', t', op', v', hgot', htaker', hfate'⟩
    · exact absurd hnone hgot
    · obtain ⟨-, -, rfl⟩ := Fate.put.inj (hfate'.symm.trans hfate)
      obtain rfl := Option.some.inj (htaker'.symm.trans htaker)
      exact .inl hgot'
  · rw [hfate] at hburnt
    simp at hburnt
  · exact .inr hholds

/-- No consumer has gone past a position nobody claimed. -/
theorem Shared.ahead (h : Shared size q) {k i t op : Nat} {v : α}
    (hfate : (q.segs k).fate i = .put t op v) (htaker : (q.segs k).taker i = none) :
    q.head ≤ k := by
  by_contra hlt
  have hpassed := h.passed k (by omega)
  have hbusy : ¬ (q.segs k).fate i = .free := by
    rw [hfate]
    simp
  rw [(h.seg k).claimed i] at hbusy
  have hopen := ((h.seg k).taken i).mp htaker
  omega

theorem Shared.fifo (h : Shared size q) {x y k i t k' i' t' : Nat} {v v' : α}
    (hbefore : Before q.history x y) (hx : (q.segs k).fate i = .put t x v)
    (hy : (q.segs k').fate i' = .put t' y v') : k * size + i < k' * size + i' :=
  calc k * size + i < q.born y := (h.put k i t x v hx).ordered y hbefore
    _ ≤ k' * size + i' := (h.put k' i' t' y v' hy).born

end Sound

/-- In every interleaving no element is lost, delivered twice or delivered out of
order, and an element that was not published goes back to its producer. -/
theorem sound_of_runs {size : Nat} (hsize : 2 ≤ size) {w : World Nat (Chain α) (Pc α)}
    (h : Runs size w) : Sound size w := by
  obtain ⟨hs, hown⟩ := (segmentedThreads (by omega : 0 < size)).holds h
  refine ⟨?_, ?_, ?_, ?_, ?_, ?_, ?_, hs.done, ?_⟩
  · intro k i
    rcases (hs.seg k).got_once i with hnone | ⟨c, t, op, v, hgot, -⟩
    · simp [hnone]
    · simp [hgot]
  · intro k i c v hmem
    rcases (hs.seg k).got_once i with hnone | ⟨c', t, op, u, hgot, htaker, hfate⟩
    · rw [hnone] at hmem
      simp at hmem
    · rw [hgot, List.mem_singleton] at hmem
      obtain ⟨rfl, rfl⟩ := Prod.mk.inj hmem
      exact ⟨htaker, t, op, u, hfate, rfl⟩
  · exact fun k i t op v c hfate htaker => (hown c).delivered hs hfate htaker
  · exact fun k i t op v hfate htaker => hs.ahead hfate htaker
  · exact fun k i t op v hfate => (hs.seg k).not_dead hfate
  · exact fun k i t op v hfate => (hown t).published k i op v hfate
  · exact fun t op rest hcall => ((hown t).call op rest hcall).2
  · intro x y hbefore k i t v k' i' t' v' hx hy
    exact hs.fifo hbefore hx hy

namespace Pc

def resting : Pc α → Bool
  | .idle => true
  | _ => false

theorem eq_idle {pc : Pc α} (h : pc.resting = true) : pc = .idle := by
  cases pc with
  | idle => rfl
  | _ => cases h

end Pc

/-- A thread that is in no call begins the given one; any other makes its next step. -/
def move (size : Nat) (w : World Nat (Chain α) (Pc α)) (m : Nat × Option (Call α)) :
    World Nat (Chain α) (Pc α) :=
  match w.own m.1, m.2 with
  | .idle, none => w
  | .idle, some c =>
      ⟨(c.start size m.1 w.shared).1,
        Function.update w.own m.1 (c.start size m.1 w.shared).2⟩
  | pc, _ =>
      ⟨(exec size m.1 false w.shared pc).1,
        Function.update w.own m.1 (exec size m.1 false w.shared pc).2⟩

theorem runs_call {size : Nat} {w : World Nat (Chain α) (Pc α)} (h : Runs size w) (t : Nat)
    (c : Call α) (hidle : w.own t = .idle) :
    Runs size ⟨(c.start size t w.shared).1,
      Function.update w.own t (c.start size t w.shared).2⟩ :=
  .step h (by rw [hidle]; exact .call c)

theorem runs_move {size : Nat} {w : World Nat (Chain α) (Pc α)} (h : Runs size w)
    (m : Nat × Option (Call α)) : Runs size (move size w m) := by
  unfold move
  split
  · exact h
  · rename_i c hidle _
    exact runs_call h m.1 c hidle
  · rename_i hnone hsome
    refine .step h (.run false _ fun hidle => ?_)
    cases hc : m.2 with
    | none => exact hnone hidle hc
    | some c => exact hsome c hidle hc

theorem move_own {size : Nat} {w : World Nat (Chain α) (Pc α)} {m : Nat × Option (Call α)} {t : Nat}
    (hne : t ≠ m.1) : (move size w m).own t = w.own t := by
  unfold move
  split
  · rfl
  · exact Function.update_of_ne hne ..
  · exact Function.update_of_ne hne ..

theorem moves_own {size : Nat} {w : World Nat (Chain α) (Pc α)} {ms : List (Nat × Option (Call α))}
    {t : Nat} (hne : ∀ m ∈ ms, t ≠ m.1) : (ms.foldl (move size) w).own t = w.own t := by
  induction ms generalizing w with
  | nil => rfl
  | cons m ms ih =>
      rw [List.foldl_cons, ih fun m' hm' => hne m' (List.mem_cons_of_mem _ hm')]
      exact move_own (hne m List.mem_cons_self)

theorem runs_moves {size : Nat} {w : World Nat (Chain α) (Pc α)} (h : Runs size w)
    (ms : List (Nat × Option (Call α))) : Runs size (ms.foldl (move size) w) := by
  induction ms generalizing w with
  | nil => exact h
  | cons m ms ih => exact ih (runs_move h m)

def handOver : World Nat (Chain Nat) (Pc Nat) :=
  [(0, some (.enqueue 7)), (0, none), (0, none), (0, none), (0, none), (1, some .tryDequeue),
    (1, none), (1, none), (1, none), (1, none), (1, none), (1, none)].foldl (move 2)
    ⟨Chain.new, fun _ => .idle⟩

theorem handOver_sound :
    (handOver.shared.segs 0).got 0 = [(1, some 7)] ∧
      handOver.shared.history = [.returned 0, .called 0] ∧ Sound 2 handOver :=
  ⟨rfl, rfl, sound_of_runs le_rfl (runs_moves .start _)⟩

end Uvent.Queue.Segmented
