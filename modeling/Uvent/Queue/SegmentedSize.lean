import Uvent.Queue.SegmentedEmpty
import Mathlib.Data.Finset.Image
import Mathlib.Order.Interval.Finset.Nat

/-!
# The size of the segmented queue

What `size` and `empty` read from the two end segments, and what they say when no
operation is in progress.  Then the tail is the last segment, every position between the
head and the tail is taken by a producer and by no consumer, and a burnt position is one
of both counts.
-/

namespace Uvent.Queue.Segmented

open Uvent.Lib

variable {α : Type}

/-- `size_relaxed`, with no step of another thread between its loads. -/
def Chain.sizeRelaxed (size : Nat) (q : Chain α) : Nat :=
  q.tail * size + min (q.segs q.tail).enqPos size -
    (q.head * size + min (q.segs q.head).deqPos size)

def Chain.emptyRelaxed (size : Nat) (q : Chain α) : Bool :=
  if (q.segs q.head).deqPos < size then decide ((q.segs q.head).enqPos ≤ (q.segs q.head).deqPos)
  else decide (¬ q.head < q.last)

def takes (q : Chain α) : Pc α → List (Option α)
  | .takeState _ _ _ _ out | .burn _ _ _ _ _ out => out
  | .consume _ s i _ out => out ++ [(q.segs s).storage i]
  | _ => []

def Chain.Keeps (q : Chain α) (k i : Nat) : Prop :=
  (∃ t op v, (q.segs k).fate i = .put t op v) ∧ (q.segs k).taker i = none

namespace Pc

def Pending : Pc α → Prop
  | .protectTail _ _ vs | .claim _ _ _ vs | .loadNext _ _ _ vs | .swing _ _ _ vs => vs ≠ []
  | .publish _ _ _ i stop beyond vs => beyond = true → stop - i < vs.length
  | .link carry _ _ fresh vs =>
      (fresh.storage 0).toList ++ vs ≠ [] ∧ if carry then 0 < fresh.enqPos else vs ≠ []
  | _ => True

/-- The thread goes on to move `tail_` behind segment `s`. -/
def SwingsAt (s : Nat) : Pc α → Prop
  | .swing _ _ s' _ | .swingLast _ s' => s' = s
  | _ => False

def Short (pc : Pc α) : Prop := ∃ op v vs, pc.call = some (op, v :: vs)

end Pc

/-- What holds besides `Shared`, of the queue and its threads. -/
structure Tidy (size : Nat) (w : World Nat (Chain α) (Pc α)) : Prop where
  pending : ∀ t, (w.own t).Pending
  swings : w.shared.tail < w.shared.last → ∃ t, (w.own t).SwingsAt w.shared.tail
  untouched : ∀ k, w.shared.head < k → (w.shared.segs k).deqPos = 0
  begun : 0 < w.shared.last → 0 < (w.shared.segs w.shared.last).enqPos ∨ ∃ t, (w.own t).Short
  burnt : ∀ k i, (w.shared.segs k).fate i = .burnt → (w.shared.segs k).taker i ≠ none

structure Tidies (q : Chain α) (pc : Pc α) (q' : Chain α) (pc' : Pc α) : Prop where
  pending : pc'.Pending
  swings : q'.tail < q'.last → pc'.SwingsAt q'.tail ∨
    q'.tail = q.tail ∧ q'.last = q.last ∧ ¬ pc.SwingsAt q.tail
  head_le : q.head ≤ q'.head
  deq : ∀ k, q'.head < k → (q'.segs k).deqPos = (q.segs k).deqPos
  begun : 0 < (q'.segs q'.last).enqPos ∨ pc'.Short ∨
    q'.last = q.last ∧ (q'.segs q'.last).enqPos = (q.segs q.last).enqPos ∧ ¬ pc.Short
  burnt : ∀ k i, (q'.segs k).fate i = .burnt →
    (q'.segs k).taker i ≠ none ∨ (q.segs k).fate i = .burnt
  taken : ∀ k i, (q.segs k).taker i ≠ none → (q'.segs k).taker i ≠ none

theorem Tidies.tidy {size t : Nat} {w : World Nat (Chain α) (Pc α)} {q : Chain α} {pc : Pc α}
    (h : Tidies w.shared (w.own t) q pc) (hw : Tidy size w) :
    Tidy size ⟨q, Function.update w.own t pc⟩ where
  pending t' := by
    by_cases ht : t' = t
    · subst ht
      simpa using h.pending
    · simpa [ht] using hw.pending t'
  swings hlt := by
    obtain hself | ⟨htail, hlast, hnot⟩ := h.swings hlt
    · exact ⟨t, by simpa using hself⟩
    · have hold : w.shared.tail < w.shared.last := by
        rw [← htail, ← hlast]
        exact hlt
      obtain ⟨t', ht'⟩ := hw.swings hold
      have hne : t' ≠ t := by
        rintro rfl
        exact hnot ht'
      refine ⟨t', ?_⟩
      show (Function.update w.own t pc t').SwingsAt q.tail
      rw [Function.update_of_ne hne, htail]
      exact ht'
  untouched k hk := (h.deq k hk).trans (hw.untouched k (h.head_le.trans_lt hk))
  begun hlast := by
    obtain hpos | hshort | ⟨hsame, henq, hnot⟩ := h.begun
    · exact .inl hpos
    · exact .inr ⟨t, by simpa using hshort⟩
    · have hlast' : 0 < q.last := hlast
      obtain hpos | ⟨t', ht'⟩ := hw.begun (hsame ▸ hlast')
      · refine .inl ?_
        show 0 < (q.segs q.last).enqPos
        rw [henq]
        exact hpos
      · have hne : t' ≠ t := by
          rintro rfl
          exact hnot ht'
        refine .inr ⟨t', ?_⟩
        show (Function.update w.own t pc t').Short
        rw [Function.update_of_ne hne]
        exact ht'
  burnt k i hburnt := by
    obtain htaken | hold := h.burnt k i hburnt
    · exact htaken
    · exact h.taken k i (hw.burnt k i hold)

section Steps

variable {size t : Nat} {q q' : Chain α} {pc pc' : Pc α}

theorem not_short_of_call (h : pc.call = none) : ¬ pc.Short := by
  rintro ⟨op, v, vs, hcall⟩
  rw [h] at hcall
  cases hcall

theorem tidies_reads (hsegs : q'.segs = q.segs) (hhead : q'.head = q.head) (htail : q'.tail = q.tail)
    (hlast : q'.last = q.last) (hpending : pc'.Pending) (hswings : ∀ s, ¬ pc.SwingsAt s)
    (hshort : pc.Short → pc'.Short) : Tidies q pc q' pc' := by
  refine ⟨hpending, fun _ => .inr ⟨htail, hlast, hswings _⟩, hhead.ge, fun k _ => by rw [hsegs], ?_,
    fun k i h => .inr (by rw [← hsegs]; exact h), fun k i h => by rw [hsegs]; exact h⟩
  by_cases h : pc.Short
  · exact .inr (.inl (hshort h))
  · exact .inr (.inr ⟨hlast, by rw [hsegs, hlast], h⟩)

theorem tidies_look (hpc : pc.call = none) (hpending : pc'.Pending) : Tidies q pc q pc' := by
  refine tidies_reads rfl rfl rfl rfl hpending ?_ fun h => absurd h (not_short_of_call hpc)
  cases pc with
  | swing carry op s vs => simp [Pc.call] at hpc
  | swingLast op s => simp [Pc.call] at hpc
  | _ => exact fun _ h => h

/-- A step of a consumer that changes at most segment `s`, which the head has come to. -/
theorem tidies_consumer {s : Nat} {f : Segment α → Segment α} (hpc : pc.call = none)
    (hpending : pc'.Pending) (hs : s ≤ q.head) (henq : (q.segs s).enqPos ≤ (f (q.segs s)).enqPos)
    (hburnt : ∀ i, (f (q.segs s)).fate i = .burnt →
      (f (q.segs s)).taker i ≠ none ∨ (q.segs s).fate i = .burnt)
    (htaken : ∀ i, (q.segs s).taker i ≠ none → (f (q.segs s)).taker i ≠ none) :
    Tidies q pc (q.modifySeg s f) pc' := by
  have hswings : ∀ s, ¬ pc.SwingsAt s := by
    cases pc with
    | swing carry op s vs => simp [Pc.call] at hpc
    | swingLast op s => simp [Pc.call] at hpc
    | _ => exact fun _ h => h
  refine ⟨hpending, fun _ => .inr ⟨rfl, rfl, hswings _⟩, le_rfl, fun k hk => ?_, ?_,
    fun k i => ?_, fun k i => ?_⟩
  · have hk' : q.head < k := hk
    rw [modifySeg_of_ne (by omega)]
  · by_cases hpos : 0 < ((q.modifySeg s f).segs q.last).enqPos
    · exact .inl hpos
    · refine .inr (.inr ⟨rfl, ?_, not_short_of_call hpc⟩)
      show ((q.modifySeg s f).segs q.last).enqPos = _
      by_cases hlast : q.last = s
      · rw [hlast, modifySeg_self] at hpos ⊢
        omega
      · rw [modifySeg_of_ne hlast]
  · by_cases hk : k = s
    · subst hk
      rw [modifySeg_self]
      exact hburnt i
    · rw [modifySeg_of_ne hk]
      exact .inr
  · by_cases hk : k = s
    · subst hk
      rw [modifySeg_self]
      exact htaken i
    · rw [modifySeg_of_ne hk]
      exact fun h => h

theorem nextTake_idle {max : Option Nat} {s i stop : Nat} {out : List (Option α)}
    (h : (nextTake q max s i stop out).2 = .idle) : out ≠ [] := by
  unfold nextTake at h
  split at h
  · cases h
  · split at h
    · cases h
    · rename_i hout
      rintro rfl
      exact hout rfl

theorem nextTake_pending (q : Chain α) (max : Option Nat) (s i stop : Nat) (out : List (Option α)) :
    (nextTake q max s i stop out).1 = q ∧ (nextTake q max s i stop out).2.Pending := by
  obtain ⟨pc', heq, -, ⟨-, rfl⟩ | ⟨-, rfl | rfl⟩⟩ := nextTake_cases q max s i stop out
  · rw [heq]
    exact ⟨rfl, trivial⟩
  · rw [heq]
    exact ⟨rfl, trivial⟩
  · rw [heq]
    exact ⟨rfl, trivial⟩

theorem short_iff {op : Nat} {vs : List α} (h : pc.call = some (op, vs)) : pc.Short ↔ vs ≠ [] := by
  cases vs with
  | nil => simp [Pc.Short, h]
  | cons v vs => simp [Pc.Short, h]

theorem nextClaim_eq {carry : Bool} {op s : Nat} {vs : List α} (h : vs ≠ []) :
    nextClaim q carry op s vs = (q, .claim carry op s vs) := by
  cases vs with
  | nil => exact absurd rfl h
  | cons v vs => rfl

theorem claim_tidies {carry : Bool} {op s : Nat} {vs : List α} (spurious : Bool)
    (hs : Shared size q) (hown : Own size t q (.claim carry op s vs)) (hvs : vs ≠ []) :
    Tidies q (.claim carry op s vs) (exec size t spurious q (.claim carry op s vs)).1
      (exec size t spurious q (.claim carry op s vs)).2 := by
  have hpos : 0 < vs.length := List.length_pos_of_ne_nil hvs
  have hsegs : ∀ k, k ≠ s → (q.claimCells size t op s vs).segs k = q.segs k :=
    fun k hk => modifySeg_of_ne hk
  have hseg : (q.claimCells size t op s vs).segs s = (q.segs s).claimCells size t op vs :=
    modifySeg_self
  rw [exec.eq_def]
  dsimp only
  refine ⟨?_, fun _ => .inr ⟨rfl, rfl, fun h => h⟩, le_rfl, fun k _ => ?_, ?_, fun k i h => .inr ?_,
    fun k i h => ?_⟩
  · split
    · exact hvs
    · intro hbeyond
      have hlt := of_decide_eq_true hbeyond
      omega
  · by_cases hk : k = s
    · rw [hk, hseg]
      rfl
    · rw [hsegs k hk]
  · by_cases hfull : size ≤ (q.segs s).enqPos
    · rw [if_pos hfull]
      exact .inr (.inl ((short_iff rfl).mpr hvs))
    · have hlast : s = q.last := by
        have hlinked : s ≤ q.tail := hown.fits.1
        have := hs.tail_le
        by_contra hne
        exact hfull (hs.filled s (by omega))
      refine .inl ?_
      show 0 < ((q.claimCells size t op s vs).segs q.last).enqPos
      rw [← hlast, hseg]
      exact Nat.add_pos_right _ hpos
  · by_cases hk : k = s
    · subst hk
      rw [hseg] at h
      obtain ⟨hsame, -⟩ | ⟨v, -, -, -, -, hput⟩ := claimCells_fate (hs.seg k) t op vs i
      · rw [← hsame]
        exact h
      · rw [hput] at h
        cases h
    · rw [hsegs k hk] at h
      exact h
  · by_cases hk : k = s
    · subst hk
      rw [hseg]
      exact h
    · rw [hsegs k hk]
      exact h

theorem publish_tidies {carry beyond : Bool} {op s i stop : Nat} {vs : List α} (spurious : Bool)
    (h : (Pc.publish carry op s i stop beyond vs).Pending) :
    Tidies q (.publish carry op s i stop beyond vs)
      (exec size t spurious q (.publish carry op s i stop beyond vs)).1
      (exec size t spurious q (.publish carry op s i stop beyond vs)).2 := by
  rw [exec.eq_def]
  dsimp only
  by_cases hlt : i < stop
  · rw [if_pos hlt]
    cases vs with
    | nil =>
        refine tidies_reads rfl rfl rfl rfl (fun hbeyond => ?_) (fun _ h => h) fun hshort => ?_
        · exact absurd (h hbeyond) (Nat.not_lt_zero _)
        · exact absurd hshort ((short_iff rfl).not.mpr (by simp))
    | cons v vs =>
        refine ⟨fun hbeyond => ?_, fun _ => .inr ⟨rfl, rfl, fun h => h⟩, le_rfl, fun k _ => ?_, ?_,
          fun k j hburnt => .inr ?_, fun k j htaken => ?_⟩
        · have hshort := h hbeyond
          rw [List.length_cons] at hshort
          omega
        · by_cases hk : k = s
          · subst hk
            rw [modifySeg_self]
            rfl
          · rw [modifySeg_of_ne hk]
        · have hdrop : (v :: vs).drop (stop - i) = vs.drop (stop - (i + 1)) := by
            have hsub : stop - i = stop - (i + 1) + 1 := by omega
            rw [hsub, List.drop_succ_cons]
          by_cases hrest : vs.drop (stop - (i + 1)) = []
          · refine .inr (.inr ⟨rfl, ?_, (short_iff rfl).not.mpr ?_⟩)
            · show ((q.modifySeg s (.publishCell i v)).segs q.last).enqPos = _
              by_cases hk : q.last = s
              · rw [hk, modifySeg_self]
                rfl
              · rw [modifySeg_of_ne hk]
            · rw [hdrop]
              exact not_not.mpr hrest
          · exact .inr (.inl ((short_iff rfl).mpr hrest))
        · by_cases hk : k = s
          · subst hk
            rw [modifySeg_self] at hburnt
            exact hburnt
          · rw [modifySeg_of_ne hk] at hburnt
            exact hburnt
        · by_cases hk : k = s
          · subst hk
            rw [modifySeg_self]
            exact htaken
          · rw [modifySeg_of_ne hk]
            exact htaken
  · rw [if_neg hlt]
    have hdrop : vs.drop (stop - i) = vs := by
      rw [Nat.sub_eq_zero_of_le (by omega), List.drop_zero]
    have hshort : (Pc.publish carry op s i stop beyond vs).Short ↔ vs ≠ [] := by
      have hcall : (Pc.publish carry op s i stop beyond vs).call = some (op, vs) := by
        rw [Pc.call, hdrop]
      rw [short_iff hcall]
    cases hbeyond : beyond with
    | true =>
        have hvs : vs ≠ [] := List.ne_nil_of_length_pos (Nat.zero_lt_of_lt (h hbeyond))
        exact tidies_reads rfl rfl rfl rfl hvs (fun _ h => h) fun _ => (short_iff rfl).mpr hvs
    | false =>
        subst hbeyond
        by_cases hvs : vs = []
        · subst hvs
          exact tidies_reads rfl rfl rfl rfl trivial (fun _ h => h)
            fun hs => absurd rfl (hshort.mp hs)
        · rw [if_neg Bool.false_ne_true, nextClaim_eq hvs]
          exact tidies_reads rfl rfl rfl rfl hvs (fun _ h => h) fun _ => (short_iff rfl).mpr hvs

theorem link_tidies {carry : Bool} {op s : Nat} {fresh : Segment α} {vs : List α}
    (spurious : Bool) (hs : Shared size q) (hown : Own size t q (.link carry op s fresh vs))
    (h : (Pc.link carry op s fresh vs).Pending) :
    Tidies q (.link carry op s fresh vs) (exec size t spurious q (.link carry op s fresh vs)).1
      (exec size t spurious q (.link carry op s fresh vs)).2 := by
  obtain ⟨hlinked, -, -, carried, hfresh, -, -⟩ := hown.fits
  obtain ⟨hall, hcarry⟩ := h
  rw [exec.eq_def]
  dsimp only
  by_cases hlast : s = q.last
  · rw [if_pos hlast]
    have htail : s = q.tail := by
      have := hs.tail_le
      omega
    have hsegs : (q.append op s fresh).segs = Function.update q.segs (s + 1) fresh := rfl
    have hself : (q.append op s fresh).segs (s + 1) = fresh := by
      rw [hsegs, Function.update_self]
    have hother : ∀ k, k ≠ s + 1 → (q.append op s fresh).segs k = q.segs k := by
      intro k hk
      rw [hsegs, Function.update_of_ne hk]
    have hnew : q.segs (s + 1) = .new := hs.unlinked (s + 1) (by omega)
    have hdeq : fresh.deqPos = 0 := by
      rw [hfresh]
      cases carried <;> rfl
    have hburnt : ∀ i, fresh.fate i ≠ .burnt := by
      intro i hi
      rw [hfresh] at hi
      cases carried with
      | none => cases hi
      | some v =>
          simp only [freshSegment, Function.update_apply] at hi
          split at hi <;> cases hi
    refine ⟨?_, fun _ => .inl ?_, le_rfl, fun k _ => ?_, ?_, fun k i hi => .inr ?_, fun k i hi => ?_⟩
    · cases carry with
      | true => exact trivial
      | false => exact hcarry
    · cases carry with
      | true => exact htail
      | false => exact htail
    · by_cases hk : k = s + 1
      · rw [hk, hself, hnew, hdeq]
        rfl
      · rw [hother k hk]
    · cases carry with
      | true =>
          refine .inl ?_
          show 0 < ((q.append op s fresh).segs (s + 1)).enqPos
          rw [hself]
          exact hcarry
      | false => exact .inr (.inl ((short_iff rfl).mpr hcarry))
    · by_cases hk : k = s + 1
      · rw [hk, hself] at hi
        exact absurd hi (hburnt i)
      · rw [hother k hk] at hi
        exact hi
    · by_cases hk : k = s + 1
      · rw [hk, hnew] at hi
        exact absurd rfl hi
      · rw [hother k hk]
        exact hi
  · rw [if_neg hlast]
    exact tidies_reads rfl rfl rfl rfl hall (fun _ h => h) fun _ => (short_iff rfl).mpr hall

theorem swingTail_ends (hs : Shared size q) {s : Nat} (pc : Pc α)
    (hpc : ∀ s', pc.SwingsAt s' → s = s') : (q.swingTail s).tail < (q.swingTail s).last →
      (q.swingTail s).tail = q.tail ∧ (q.swingTail s).last = q.last ∧ ¬ pc.SwingsAt q.tail := by
  intro hlt
  by_cases htail : q.tail = s
  · -- the tail has come to the last segment
    have hlast := hs.last_le
    rw [Chain.swingTail, if_pos htail] at hlt
    have hlt' : s + 1 < q.last := hlt
    omega
  · rw [Chain.swingTail, if_neg htail]
    exact ⟨rfl, rfl, fun h => htail (hpc _ h).symm⟩

theorem swingTail_segs (q : Chain α) (s : Nat) :
    (q.swingTail s).segs = q.segs ∧ (q.swingTail s).last = q.last := by
  rw [Chain.swingTail]
  split <;> exact ⟨rfl, rfl⟩

theorem swing_tidies {carry : Bool} {op s : Nat} {vs : List α} (spurious : Bool)
    (hs : Shared size q) (hvs : vs ≠ []) :
    Tidies q (.swing carry op s vs) (exec size t spurious q (.swing carry op s vs)).1
      (exec size t spurious q (.swing carry op s vs)).2 := by
  obtain ⟨hsegs, -⟩ := swingTail_segs q s
  refine ⟨hvs, fun hlt => .inr (swingTail_ends hs _ (fun _ h => h) hlt), (swingTail_head q s).ge,
    fun k _ => ?_, .inr (.inl ((short_iff rfl).mpr hvs)), fun k i h => .inr ?_, fun k i h => ?_⟩
  · show ((q.swingTail s).segs k).deqPos = _
    rw [hsegs]
  · rw [← hsegs]
    exact h
  · show ((q.swingTail s).segs k).taker i ≠ none
    rw [hsegs]
    exact h

theorem swingLast_tidies {op s : Nat} (spurious : Bool) (hs : Shared size q) :
    Tidies q (.swingLast op s) (exec size t spurious q (.swingLast op s)).1
      (exec size t spurious q (.swingLast op s)).2 := by
  obtain ⟨hsegs, hlast⟩ := swingTail_segs q s
  refine ⟨trivial, fun hlt => .inr (swingTail_ends hs _ (fun _ h => h) hlt), (swingTail_head q s).ge,
    fun k _ => ?_, .inr (.inr ⟨hlast, ?_, (short_iff rfl).not.mpr (by simp)⟩), fun k i h => .inr ?_,
    fun k i h => ?_⟩
  · show ((q.swingTail s).segs k).deqPos = _
    rw [hsegs]
  · show ((q.swingTail s).segs (q.swingTail s).last).enqPos = _
    rw [hsegs, hlast]
  · rw [← hsegs]
    exact h
  · show ((q.swingTail s).segs k).taker i ≠ none
    rw [hsegs]
    exact h

theorem claimTaken_tidies {s n : Nat} (hpc : pc.call = none) (hpending : pc'.Pending)
    (hs : Shared size q) (hseen : s ≤ q.head) :
    Tidies q pc (q.modifySeg s (.claimTaken size t n)) pc' := by
  refine tidies_consumer hpc hpending hseen le_rfl (fun i h => .inr h) fun i h => ?_
  obtain ⟨hsame, -⟩ | ⟨-, -, -, hmine⟩ := claimTaken_taker (hs.seg s) t n i
  · rw [hsame]
    exact h
  · rw [hmine]
    nofun

/-- Positions that a consumer burns are claimed by consumers, up to its own. -/
theorem takeCas_tidies {max : Option Nat} {s i stop e : Nat} {out : List (Option α)}
    (spurious : Bool) (hs : Shared size q) (hown : Own size t q (.takeCas max s i stop e out))
    (hseen : s ≤ q.head) :
    Tidies q (.takeCas max s i stop e out) (exec size t spurious q (.takeCas max s i stop e out)).1
      (exec size t spurious q (.takeCas max s i stop e out)).2 := by
  obtain ⟨hclaimed, hle⟩ := hown.fits
  rw [exec.eq_def]
  dsimp only
  by_cases hcas : (q.segs s).enqPos = e ∧ spurious = false
  · rw [if_pos hcas]
    refine tidies_consumer rfl trivial hseen ?_ (fun j hj => ?_) fun j hj => hj
    · show _ ≤ i + 1
      omega
    · obtain ⟨hsame, -⟩ | ⟨-, hji, -, -⟩ := burnCells_fate (hs.seg s) hcas.1 i j
      · rw [hsame] at hj
        exact .inr hj
      · refine .inl ?_
        have hmine := (hclaimed.mine i le_rfl hclaimed.lt).1
        have hlt : i < (q.segs s).deqPos := by
          by_contra hnot
          have hnone := ((hs.seg s).taken i).mpr (.inl (by omega))
          rw [hmine] at hnone
          cases hnone
        have hsize := hclaimed.le
        have hlt' := hclaimed.lt
        intro hnone
        have hopen := ((hs.seg s).taken j).mp hnone
        omega
  · rw [if_neg hcas]
    exact tidies_look rfl trivial

theorem loadNext_tidies {carry : Bool} {op s : Nat} {vs : List α} (spurious : Bool)
    (hvs : vs ≠ []) :
    Tidies q (.loadNext carry op s vs) (exec size t spurious q (.loadNext carry op s vs)).1
      (exec size t spurious q (.loadNext carry op s vs)).2 := by
  rw [exec.eq_def]
  dsimp only
  split
  · exact tidies_reads rfl rfl rfl rfl hvs (fun _ h => h) fun _ => (short_iff rfl).mpr hvs
  · split
    · rename_i hcarry
      obtain ⟨v, vs, rfl⟩ := List.exists_cons_of_ne_nil hvs
      have hall : (((freshSegment t op (v :: vs).head?).storage 0).toList ++
          (v :: vs).tail) ≠ [] := by
        simp [freshSegment]
      refine tidies_reads rfl rfl rfl rfl ⟨hall, ?_⟩ (fun _ h => h)
        fun _ => (short_iff rfl).mpr hall
      rw [if_pos hcarry]
      exact Nat.one_pos
    · rename_i hcarry
      have hall : ((freshSegment t op (none : Option α)).storage 0).toList ++ vs ≠ [] := hvs
      refine tidies_reads rfl rfl rfl rfl ⟨hall, ?_⟩ (fun _ h => h)
        fun _ => (short_iff rfl).mpr hall
      rw [if_neg hcarry]
      exact hvs

theorem burn_tidies {max : Option Nat} {s j i stop : Nat} {out : List (Option α)} (spurious : Bool)
    (hhead : s ≤ q.head) :
    Tidies q (.burn max s j i stop out) (exec size t spurious q (.burn max s j i stop out)).1
      (exec size t spurious q (.burn max s j i stop out)).2 := by
  rw [exec.eq_def]
  dsimp only
  split
  · exact tidies_consumer rfl trivial hhead le_rfl (fun _ h => .inr h) fun _ h => h
  · obtain ⟨hsame, hnext⟩ := nextTake_pending q max s (i + 1) stop out
    rw [hsame]
    exact tidies_look rfl hnext

theorem consume_tidies {max : Option Nat} {s i stop : Nat} {out : List (Option α)} (spurious : Bool)
    (hhead : s ≤ q.head) :
    Tidies q (.consume max s i stop out) (exec size t spurious q (.consume max s i stop out)).1
      (exec size t spurious q (.consume max s i stop out)).2 := by
  rw [exec.eq_def]
  dsimp only
  obtain ⟨hsame, hnext⟩ := nextTake_pending (q.modifySeg s (.consumeCell t i)) max s (i + 1) stop
    (out ++ [(q.segs s).storage i])
  rw [hsame]
  exact tidies_consumer rfl hnext hhead le_rfl (fun _ h => .inr h) fun _ h => h

theorem swingHead_tidies {max : Option Nat} {s : Nat} (spurious : Bool) :
    Tidies q (.swingHead max s) (exec size t spurious q (.swingHead max s)).1
      (exec size t spurious q (.swingHead max s)).2 := by
  rw [exec.eq_def]
  have hsegs : (q.swingHead s).segs = q.segs ∧ (q.swingHead s).tail = q.tail ∧
      (q.swingHead s).last = q.last := by
    rw [Chain.swingHead]
    split <;> exact ⟨rfl, rfl, rfl⟩
  refine ⟨trivial, fun _ => .inr ⟨hsegs.2.1, hsegs.2.2, fun h => h⟩, le_swingHead q s,
    fun k _ => by rw [hsegs.1], .inr (.inr ⟨hsegs.2.2, by rw [hsegs.1, hsegs.2.2],
      not_short_of_call rfl⟩), fun k i h => .inr (by rw [← hsegs.1]; exact h), fun k i h => ?_⟩
  rw [hsegs.1]
  exact h

theorem exec_tidies (spurious : Bool) (hs : Shared size q) (hown : Own size t q pc)
    (hseen : Seen size q pc) (hpending : pc.Pending) :
    Tidies q pc (exec size t spurious q pc).1 (exec size t spurious q pc).2 := by
  cases pc with
  | idle => exact tidies_look rfl trivial
  | protectTail carry op vs =>
      have hvs : vs ≠ [] := hpending
      rw [exec, nextClaim_eq hvs]
      exact tidies_reads rfl rfl rfl rfl hvs (fun _ h => h) fun _ => (short_iff rfl).mpr hvs
  | claim carry op s vs => exact claim_tidies spurious hs hown hpending
  | publish carry op s i stop beyond vs => exact publish_tidies spurious hpending
  | loadNext carry op s vs => exact loadNext_tidies spurious hpending
  | link carry op s fresh vs => exact link_tidies spurious hs hown hpending
  | swing carry op s vs => exact swing_tidies spurious hs hpending
  | swingLast op s => exact swingLast_tidies spurious hs
  | protectHead max => exact tidies_look rfl trivial
  | loadDeq max s =>
      rw [exec.eq_def]
      dsimp only
      split <;> exact tidies_look rfl trivial
  | scan max s d limit ready =>
      rw [exec.eq_def]
      dsimp only
      split
      · exact tidies_look rfl trivial
      · refine tidies_look rfl ?_
        unfold afterScan
        split
        · exact trivial
        · split <;> exact trivial
  | checkEmpty max s d =>
      rw [exec.eq_def]
      dsimp only
      split <;> exact tidies_look rfl trivial
  | casDeq max s d =>
      have hhead : s ≤ q.head := hseen
      rw [exec.eq_def]
      dsimp only
      split
      · exact claimTaken_tidies rfl trivial hs hhead
      · exact tidies_look rfl trivial
  | addDeq max s n =>
      have hhead : s ≤ q.head := hseen
      rw [exec.eq_def]
      refine claimTaken_tidies rfl ?_ hs hhead
      dsimp only
      split <;> exact trivial
  | takeState max s i stop out =>
      rw [exec.eq_def]
      dsimp only
      split
      · exact tidies_look rfl trivial
      · exact tidies_look rfl trivial
      · obtain ⟨hsame, hnext⟩ := nextTake_pending q max s (i + 1) stop out
        rw [hsame]
        exact tidies_look rfl hnext
  | takeEnq max s i stop out =>
      rw [exec.eq_def]
      dsimp only
      split <;> exact tidies_look rfl trivial
  | takeCas max s i stop e out => exact takeCas_tidies spurious hs hown hseen
  | burn max s j i stop out => exact burn_tidies spurious hseen
  | consume max s i stop out => exact consume_tidies spurious hseen
  | loadHeadNext max s =>
      rw [exec.eq_def]
      dsimp only
      split <;> exact tidies_look rfl trivial
  | swingHead max s => exact swingHead_tidies spurious

theorem start_tidies (c : Call α) :
    Tidies q .idle (c.start size t q).1 (c.start size t q).2 := by
  have hidle : (Pc.idle : Pc α).Short → False := not_short_of_call rfl
  cases c with
  | enqueue v =>
      exact tidies_reads rfl rfl rfl rfl (List.cons_ne_nil v []) (fun _ h => h)
        fun h => absurd h hidle
  | enqueueBulk vs =>
      cases vs with
      | nil => exact tidies_look rfl trivial
      | cons v vs =>
          exact tidies_reads rfl rfl rfl rfl (List.cons_ne_nil v vs) (fun _ h => h)
            fun h => absurd h hidle
  | tryDequeue => exact tidies_look rfl trivial
  | tryDequeueBulk maxItems =>
      rw [Call.start]
      split <;> exact tidies_look rfl trivial

theorem tidy_of_runs (hsize : 0 < size) {w : World Nat (Chain α) (Pc α)} (h : Runs size w) :
    Tidy size w := by
  induction h with
  | start =>
      refine ⟨fun _ => trivial, fun h => absurd h (Nat.lt_irrefl 0), fun _ _ => rfl,
        fun h => absurd h (Nat.lt_irrefl 0), fun k i h => ?_⟩
      cases h
  | @step w t q pc hw hstep ih =>
      obtain ⟨hs, hown⟩ := (segmentedThreads hsize).holds hw
      refine Tidies.tidy ?_ ih
      have hseen := seen_of_runs hsize hw t
      have hpending := ih.pending t
      generalize hpc : w.own t = pc₀ at hstep hseen hpending
      cases hstep with
      | call c => exact start_tidies c
      | run spurious _ busy => exact exec_tidies spurious hs (hpc ▸ hown t) hseen hpending

end Steps

/-! ## Nothing found -/

/-- A dequeue returns without an element only from an access that shows the queue drained. -/
theorem drained_of_nothing {size t : Nat} {q : Chain α} {pc : Pc α} (spurious : Bool)
    (hs : Shared size q) (hseen : Seen size q pc) (hpc : pc.call = none) (hbusy : pc ≠ .idle)
    (hend : (exec size t spurious q pc).2 = .idle) (hnone : takes q pc = []) : Drained q := by
  rw [exec.eq_def] at hend
  cases pc with
  | idle => exact absurd rfl hbusy
  | protectHead max => cases hend
  | loadDeq max s =>
      dsimp only at hend
      split at hend <;> cases hend
  | scan max s d limit ready =>
      dsimp only at hend
      split at hend
      · cases hend
      · unfold afterScan at hend
        dsimp only at hend
        split at hend
        · cases hend
        · split at hend <;> cases hend
  | checkEmpty max s d =>
      dsimp only at hend
      split at hend
      · rename_i hempty
        exact drained_of_checkEmpty hs hseen hempty
      · cases hend
  | casDeq max s d =>
      dsimp only at hend
      split at hend <;> cases hend
  | addDeq max s n =>
      dsimp only at hend
      split at hend <;> cases hend
  | takeState max s i stop out =>
      dsimp only at hend
      split at hend
      · cases hend
      · cases hend
      · exact absurd hnone (nextTake_idle hend)
  | takeEnq max s i stop out =>
      dsimp only at hend
      split at hend <;> cases hend
  | takeCas max s i stop e out =>
      dsimp only at hend
      split at hend <;> cases hend
  | burn max s j i stop out =>
      dsimp only at hend
      split at hend
      · cases hend
      · exact absurd hnone (nextTake_idle hend)
  | consume max s i stop out => exact absurd hnone (nextTake_idle hend)
  | loadHeadNext max s =>
      dsimp only at hend
      split at hend
      · cases hend
      · rename_i hlast
        exact drained_of_loadHeadNext hs hseen hlast
  | swingHead max s => cases hend
  | _ => simp [Pc.call] at hpc

/-! ## No operation in progress -/

section Rest

variable {size : Nat} {w : World Nat (Chain α) (Pc α)}

theorem tail_of_rest (hs : Shared size w.shared) (htidy : Tidy size w)
    (hidle : ∀ t, w.own t = .idle) : w.shared.tail = w.shared.last := by
  by_contra hne
  have hle := hs.tail_le
  obtain ⟨t, ht⟩ := htidy.swings (by omega)
  rw [hidle t] at ht
  exact ht

theorem claimed_of_taken (hs : Shared size w.shared) (hown : ∀ t, Own size t w.shared (w.own t))
    (hidle : ∀ t, w.own t = .idle) {k i : Nat} (htaken : (w.shared.segs k).taker i ≠ none) :
    i < (w.shared.segs k).enqPos := by
  obtain ⟨c, hc⟩ := Option.ne_none_iff_exists'.mp htaken
  have hbusy : (w.shared.segs k).fate i ≠ .free := by
    rcases (hown c).resolved k i hc with hgot | hburnt | hholds
    · rcases (hs.seg k).got_once i with hnone | ⟨-, t, op, v, -, -, hfate⟩
      · exact absurd hnone hgot
      · rw [hfate]
        nofun
    · rw [hburnt]
      nofun
    · rw [hidle c] at hholds
      exact hholds.elim
  by_contra hnot
  exact hbusy (((hs.seg k).claimed i).mpr (.inl (by omega)))

/-- The positions between what `size` reads at the head and at the tail. -/
theorem keeps_iff (hsize : 0 < size) (hs : Shared size w.shared) (htidy : Tidy size w)
    (hidle : ∀ t, w.own t = .idle) (p : Nat) :
    w.shared.Keeps (p / size) (p % size) ↔
      w.shared.head * size + min (w.shared.segs w.shared.head).deqPos size ≤ p ∧
        p < w.shared.tail * size + min (w.shared.segs w.shared.tail).enqPos size := by
  have htail := tail_of_rest hs htidy hidle
  have hp : p / size * size + p % size = p := Nat.div_add_mod' p size
  have hmod : p % size < size := Nat.mod_lt p hsize
  generalize p / size = k at hp ⊢
  generalize p % size = i at hp hmod ⊢
  have hlater : ∀ {a b : Nat}, a < b → a * size + size ≤ b * size := by
    intro a b hab
    have := Nat.mul_le_mul_right size (Nat.succ_le_of_lt hab)
    rwa [Nat.succ_mul] at this
  rw [htail]
  constructor
  · rintro ⟨⟨t, op, v, hfate⟩, htaker⟩
    have hbusy : ¬ (w.shared.segs k).fate i = .free := by
      rw [hfate]
      nofun
    rw [(hs.seg k).claimed i] at hbusy
    have hopen := ((hs.seg k).taken i).mp htaker
    have hhead : w.shared.head ≤ k := hs.ahead hfate htaker
    have hlast : k ≤ w.shared.last := by
      by_contra hlt
      rw [hs.unlinked k (by omega)] at hfate
      cases hfate
    constructor
    · rcases Nat.eq_or_lt_of_le hhead with rfl | hlt
      · omega
      · have := hlater hlt
        omega
    · rcases Nat.eq_or_lt_of_le hlast with rfl | hlt
      · omega
      · have := hlater hlt
        omega
  · rintro ⟨hge, hlt⟩
    have hhead : w.shared.head ≤ k := by
      by_contra hnot
      have := hlater (Nat.lt_of_not_le hnot)
      omega
    have hlast : k ≤ w.shared.last := by
      by_contra hnot
      have := hlater (Nat.lt_of_not_le hnot)
      omega
    have henq : i < (w.shared.segs k).enqPos := by
      rcases Nat.eq_or_lt_of_le hlast with rfl | hbefore
      · omega
      · have := hs.filled k hbefore
        omega
    have hdeq : (w.shared.segs k).deqPos ≤ i := by
      rcases Nat.eq_or_lt_of_le hhead with rfl | hbehind
      · omega
      · rw [htidy.untouched k hbehind]
        exact Nat.zero_le i
    have htaker : (w.shared.segs k).taker i = none := ((hs.seg k).taken i).mpr (.inl hdeq)
    refine ⟨?_, htaker⟩
    cases hfate : (w.shared.segs k).fate i with
    | free =>
        have := ((hs.seg k).claimed i).mp hfate
        omega
    | burnt => exact absurd htaker (htidy.burnt k i hfate)
    | put t op v => exact ⟨t, op, v, rfl⟩

/-- With no operation in progress `empty` tells what `size` tells. -/
theorem emptyRelaxed_iff (hsize : 0 < size) (hs : Shared size w.shared) (htidy : Tidy size w)
    (hown : ∀ t, Own size t w.shared (w.own t)) (hidle : ∀ t, w.own t = .idle) :
    w.shared.emptyRelaxed size = true ↔ w.shared.sizeRelaxed size = 0 := by
  have htail := tail_of_rest hs htidy hidle
  have hhead := hs.head_le
  unfold Chain.emptyRelaxed Chain.sizeRelaxed
  rw [htail]
  rcases Nat.eq_or_lt_of_le hhead with heq | hlt
  · -- the head is the last segment
    rw [heq]
    have hle : min (w.shared.segs w.shared.last).deqPos size ≤
        (w.shared.segs w.shared.last).enqPos := by
      by_contra hnot
      have htaken : (w.shared.segs w.shared.last).taker (w.shared.segs w.shared.last).enqPos ≠ none := by
        intro hnone
        have := ((hs.seg _).taken _).mp hnone
        omega
      have := claimed_of_taken hs hown hidle htaken
      omega
    split
    · rw [decide_eq_true_iff]
      omega
    · rw [decide_eq_true_iff]
      omega
  · have hfilled := hs.filled _ hlt
    have hbegun : 0 < (w.shared.segs w.shared.last).enqPos := by
      rcases htidy.begun (by omega) with hpos | ⟨t, ht⟩
      · exact hpos
      · rw [hidle t] at ht
        exact absurd ht (not_short_of_call rfl)
    have hmul := Nat.mul_le_mul_right size (Nat.succ_le_of_lt hlt)
    rw [Nat.succ_mul] at hmul
    split
    · rw [decide_eq_true_iff]
      omega
    · rw [decide_eq_true_iff]
      omega

end Rest

/-- **Emptiness and size.**  In every interleaving a dequeue that returns without an element
has found every element enqueued so far claimed, at its last access; and when no operation is
in progress, `size` is the number of elements that are enqueued and not dequeued, and `empty`
says whether it is zero. -/
theorem counts_of_runs {size : Nat} (hsize : 2 ≤ size) {w : World Nat (Chain α) (Pc α)}
    (h : Runs size w) :
    (∀ t spurious, (w.own t).call = none → w.own t ≠ .idle →
      (exec size t spurious w.shared (w.own t)).2 = .idle → takes w.shared (w.own t) = [] →
      Drained w.shared) ∧
    ((∀ t, w.own t = .idle) → ∃ kept : Finset (Nat × Nat),
      (∀ k i, (k, i) ∈ kept ↔ w.shared.Keeps k i) ∧ kept.card = w.shared.sizeRelaxed size ∧
      (w.shared.emptyRelaxed size = true ↔ kept = ∅)) := by
  have hpos : 0 < size := by omega
  obtain ⟨hs, hown⟩ := (segmentedThreads hpos).holds h
  have htidy := tidy_of_runs hpos h
  refine ⟨fun t spurious hcall hbusy hend hnone => ?_, fun hidle => ?_⟩
  · exact drained_of_nothing spurious hs (seen_of_runs hpos h t) hcall hbusy hend hnone
  · let positions := Finset.Ico
      (w.shared.head * size + min (w.shared.segs w.shared.head).deqPos size)
      (w.shared.tail * size + min (w.shared.segs w.shared.tail).enqPos size)
    have hcard : (positions.image fun p => (p / size, p % size)).card =
        w.shared.sizeRelaxed size := by
      rw [Finset.card_image_of_injective, Nat.card_Ico]
      · rfl
      · intro p p' hpp'
        obtain ⟨hdiv, hmod⟩ := Prod.mk.inj hpp'
        rw [← Nat.div_add_mod' p size, hdiv, hmod, Nat.div_add_mod']
    refine ⟨positions.image fun p => (p / size, p % size), fun k i => ?_, hcard, ?_⟩
    · rw [Finset.mem_image]
      constructor
      · rintro ⟨p, hp, heq⟩
        obtain ⟨rfl, rfl⟩ := Prod.mk.inj heq
        exact (keeps_iff hpos hs htidy hidle p).mpr (Finset.mem_Ico.mp hp)
      · intro hkeeps
        have hlt : i < size := by
          obtain ⟨⟨t, op, v, hfate⟩, -⟩ := hkeeps
          have hbusy : ¬ (w.shared.segs k).fate i = .free := by
            rw [hfate]
            nofun
          rw [(hs.seg k).claimed i] at hbusy
          omega
        have hdiv : (k * size + i) / size = k := by
          rw [Nat.mul_comm, Nat.mul_add_div hpos, Nat.div_eq_of_lt hlt, Nat.add_zero]
        have hmod : (k * size + i) % size = i := by
          rw [Nat.mul_comm, Nat.mul_add_mod, Nat.mod_eq_of_lt hlt]
        refine ⟨k * size + i, ?_, by rw [hdiv, hmod]⟩
        have hiff := keeps_iff hpos hs htidy hidle (k * size + i)
        rw [hdiv, hmod] at hiff
        exact Finset.mem_Ico.mpr (hiff.mp hkeeps)
    · rw [emptyRelaxed_iff hpos hs htidy hown hidle, ← hcard, Finset.card_eq_zero]

/-- Two elements are put.  The threads 1 and 2 both see them; thread 1 claims the two cells, and
thread 2 the empty cell behind them, which it burns before it finds the queue empty. -/
def burning : List (Nat × Option (Call Nat)) :=
  [(0, some (.enqueueBulk [5, 6])), (0, none), (0, none), (0, none), (0, none), (0, none),
    (1, some (.tryDequeueBulk 2)), (1, none), (1, none), (1, none), (1, none), (1, none),
    (2, some .tryDequeue), (2, none), (2, none), (2, none), (2, none), (2, none), (1, none),
    (2, none), (2, none), (2, none), (2, none), (2, none), (2, none), (2, none), (2, none)]

def refilling : List (Nat × Option (Call Nat)) :=
  [(2, none), (1, none), (1, none), (1, none), (1, none), (0, some (.enqueue 7)), (0, none),
    (0, none), (0, none), (0, none), (0, some (.enqueue 8)), (0, none), (0, none), (0, none),
    (0, none), (0, none)]

def burnt : World Nat (Chain Nat) (Pc Nat) := burning.foldl (move 4) ⟨Chain.new, fun _ => .idle⟩

def refilled : World Nat (Chain Nat) (Pc Nat) := refilling.foldl (move 4) burnt

theorem burnt_runs : Runs 4 burnt := runs_moves .start burning

theorem refilled_runs : Runs 4 refilled := runs_moves burnt_runs refilling

theorem refilled_own (t : Nat) : refilled.own t = .idle := by
  by_cases ht : t < 3
  · have hall : ∀ t < 3, (refilled.own t).resting = true := by decide +kernel
    exact Pc.eq_idle (hall t ht)
  · have hburning : ∀ m ∈ burning, m.1 < 3 := by decide
    have hrefilling : ∀ m ∈ refilling, m.1 < 3 := by decide
    have hother : ∀ ms : List (Nat × Option (Call Nat)), (∀ m ∈ ms, m.1 < 3) → ∀ m ∈ ms, t ≠ m.1 :=
      fun ms hms m hm heq => ht (heq ▸ hms m hm)
    unfold refilled
    rw [moves_own (hother _ hrefilling)]
    unfold burnt
    rw [moves_own (hother _ hburning)]

theorem refilled_counts :
    (burnt.shared.segs 0).state 2 = .dead ∧ Drained burnt.shared ∧
      ∃ kept : Finset (Nat × Nat), (∀ k i, (k, i) ∈ kept ↔ refilled.shared.Keeps k i) ∧
        kept.card = 2 ∧ refilled.shared.emptyRelaxed 4 = false := by
  have hcall : (burnt.own 2).call.isNone = true := by decide +kernel
  have hbusy : (burnt.own 2).resting = false := by decide +kernel
  have hend : (exec 4 2 false burnt.shared (burnt.own 2)).2.resting = true := by decide +kernel
  have hnone : (takes burnt.shared (burnt.own 2)).isEmpty = true := by decide +kernel
  have hsize : refilled.shared.sizeRelaxed 4 = 2 := by decide +kernel
  obtain ⟨hfalse, -⟩ := counts_of_runs (by decide) burnt_runs
  obtain ⟨-, hrest⟩ := counts_of_runs (by decide) refilled_runs
  obtain ⟨kept, hkeeps, hcard, hempty⟩ := hrest refilled_own
  have hdrained : Drained burnt.shared := by
    refine hfalse 2 false (Option.isNone_iff_eq_none.mp hcall) (fun hidle => ?_) (Pc.eq_idle hend)
      (List.isEmpty_iff.mp hnone)
    rw [hidle] at hbusy
    cases hbusy
  have hkept : ¬refilled.shared.emptyRelaxed 4 = true := by
    intro htrue
    rw [hempty.mp htrue, hsize] at hcard
    cases hcard
  exact ⟨by decide +kernel, hdrained, kept, hkeeps, hcard.trans hsize, Bool.eq_false_iff.mpr hkept⟩

end Uvent.Queue.Segmented
