import Uvent.Lib.PlaceLog
import Uvent.Queue.SegmentedEmpty

/-!
# The places of a chain

The positions of a `SegmentedMPMCQueue`, in the order of the chain, are places; a burnt one
is a place at which nothing was put.  The calls are those of one element.
-/

namespace Uvent.Queue.Segmented

open Uvent.Lib

variable {α : Type}

def Fate.entry : Fate α → Option (Nat × α)
  | .put t _ v => some (t, v)
  | _ => none

def Chain.places (size : Nat) (q : Chain α) : PlaceLog Nat α where
  put x := ((q.segs (x / size)).fate (x % size)).entry
  taker x := (q.segs (x / size)).taker (x % size)
  given x := ((q.segs (x / size)).got (x % size)).head?.map Prod.fst

/-- Where thread `t` can be in `enqueue` and in `try_dequeue`. -/
inductive Doing (t : Nat) : Pc α → Job α → Prop where
  | idle : Doing t .idle .rest
  | protectTail (op : Nat) (v : α) : Doing t (.protectTail true op [v]) (.put v false)
  | claim (op s : Nat) (v : α) : Doing t (.claim true op s [v]) (.put v false)
  | loadNext (op s : Nat) (v : α) : Doing t (.loadNext true op s [v]) (.put v false)
  | link (op s : Nat) (v : α) : Doing t (.link true op s (freshSegment t op (some v)) []) (.put v false)
  | swing (op s : Nat) (v : α) : Doing t (.swing true op s [v]) (.put v false)
  | publish (op s i stop : Nat) (vs : List α) (v : α) :
      Doing t (.publish true op s i stop false vs) (.put v true)
  | swingLast (op s : Nat) (v : α) : Doing t (.swingLast op s) (.put v true)
  | protectHead : Doing t (.protectHead none) .take
  | loadDeq (s : Nat) : Doing t (.loadDeq none s) .take
  | scan (s d limit ready : Nat) : Doing t (.scan none s d limit ready) .take
  | checkEmpty (s d : Nat) : Doing t (.checkEmpty none s d) .take
  | casDeq (s d : Nat) : Doing t (.casDeq none s d) .take
  | addDeq (s : Nat) : Doing t (.addDeq none s 1) .take
  | takeState (s i : Nat) : Doing t (.takeState none s i (i + 1) []) .take
  | takeEnq (s i : Nat) : Doing t (.takeEnq none s i (i + 1) []) .take
  | takeCas (s i e : Nat) : Doing t (.takeCas none s i (i + 1) e []) .take
  | burn (s j i : Nat) : Doing t (.burn none s j i (i + 1) []) .take
  | consume (s i : Nat) : Doing t (.consume none s i (i + 1) []) .take
  | loadHeadNext (s : Nat) : Doing t (.loadHeadNext none s) .take
  | swingHead (s : Nat) : Doing t (.swingHead none s) .take

def Pc.reply (q : Chain α) (pc : Pc α) : Pc α → Option (Reply α)
  | .idle =>
      match pc with
      | .consume _ s i _ _ => ((q.segs s).storage i).map .taken
      | .checkEmpty .. | .loadHeadNext .. => some .empty
      | _ => some (.sent true)
  | _ => none

theorem Doing.rest_iff {t : Nat} {pc : Pc α} {j : Job α} (h : Doing t pc j) :
    j = .rest ↔ pc = .idle := by
  cases h with
  | idle => exact iff_of_true rfl rfl
  | protectTail | claim | loadNext | link | swing | publish | swingLast | protectHead | loadDeq
  | scan | checkEmpty | casDeq | addDeq | takeState | takeEnq | takeCas | burn | consume
  | loadHeadNext | swingHead => exact iff_of_false nofun nofun

theorem Doing.takes {t k i : Nat} {pc : Pc α} {j : Job α} (h : Doing t pc j)
    (hholds : pc.Holds k i) : j = .take := by
  cases h with
  | idle | protectTail | claim | loadNext | link | swing | publish | swingLast =>
    exact hholds.elim
  | protectHead | loadDeq | scan | checkEmpty | casDeq | addDeq | takeState | takeEnq | takeCas
  | burn | consume | loadHeadNext | swingHead => rfl

def Pc.placed : Pc α → Bool
  | .publish .. | .swingLast .. => true
  | _ => false

theorem Doing.placed {t : Nat} {pc : Pc α} {v : α} {d : Bool} (h : Doing t pc (.put v d)) :
    pc.placed = d := by
  cases h <;> rfl

section Places

variable {size s i : Nat} {q q' : Chain α}

theorem place_div (hi : i < size) : (s * size + i) / size = s := by
  rw [Nat.mul_comm, Nat.mul_add_div (by omega), Nat.div_eq_of_lt hi, Nat.add_zero]

theorem place_mod (hi : i < size) : (s * size + i) % size = i := by
  rw [Nat.mul_comm, Nat.mul_add_mod, Nat.mod_eq_of_lt hi]

/-- A place of the chain is a position of one of its segments. -/
theorem place_eq (size x : Nat) : x = x / size * size + x % size :=
  (Nat.div_add_mod' x size).symm

theorem places_of_segs (h : q'.segs = q.segs) : q'.places size = q.places size := by
  rw [Chain.places, h]
  rfl

theorem places_modifySeg {f : Segment α → Segment α}
    (hfate : ∀ j, ((f (q.segs s)).fate j).entry = ((q.segs s).fate j).entry)
    (htaker : (f (q.segs s)).taker = (q.segs s).taker) (hgot : (f (q.segs s)).got = (q.segs s).got) :
    (q.modifySeg s f).places size = q.places size := by
  have hsegs : ∀ k, (∀ j, (((q.modifySeg s f).segs k).fate j).entry = ((q.segs k).fate j).entry) ∧
      ((q.modifySeg s f).segs k).taker = (q.segs k).taker ∧
      ((q.modifySeg s f).segs k).got = (q.segs k).got := by
    intro k
    by_cases hk : k = s
    · subst hk
      rw [modifySeg_self]
      exact ⟨hfate, htaker, hgot⟩
    · rw [modifySeg_of_ne hk]
      exact ⟨fun _ => rfl, rfl, rfl⟩
  rw [Chain.places, Chain.places, PlaceLog.mk.injEq]
  refine ⟨funext fun x => (hsegs _).1 _, funext fun x => ?_, funext fun x => ?_⟩
  · rw [(hsegs _).2.1]
  · rw [(hsegs _).2.2]

theorem places_put (hi : i < size) {t o : Nat} {v : α}
    (hself : (q'.segs s).fate i = .put t o v)
    (hother : ∀ k j, ¬(k = s ∧ j = i) →
      ((q'.segs k).fate j).entry = ((q.segs k).fate j).entry)
    (htaker : ∀ k, (q'.segs k).taker = (q.segs k).taker)
    (hgot : ∀ k, (q'.segs k).got = (q.segs k).got) :
    q'.places size = (q.places size).setPut (s * size + i) t v := by
  have hput : (q'.places size).put =
      Function.update (q.places size).put (s * size + i) (some (t, v)) := by
    funext x
    by_cases hx : x = s * size + i
    · subst hx
      rw [Function.update_self, Chain.places]
      dsimp only
      rw [place_div hi, place_mod hi, hself]
      rfl
    · rw [Function.update_of_ne hx]
      refine hother _ _ fun ⟨hs, hmod⟩ => hx ?_
      rw [← hs, ← hmod]
      exact place_eq size x
  rw [PlaceLog.setPut, ← hput, Chain.places, Chain.places]
  simp only [htaker, hgot]

theorem places_taker (hi : i < size) {t : Nat} {f : Segment α → Segment α}
    (hfate : (f (q.segs s)).fate = (q.segs s).fate)
    (htaker : (f (q.segs s)).taker = Function.update (q.segs s).taker i (some t))
    (hgot : (f (q.segs s)).got = (q.segs s).got) :
    (q.modifySeg s f).places size = (q.places size).setTaker (s * size + i) t := by
  have hsegs : ∀ k, ((q.modifySeg s f).segs k).fate = (q.segs k).fate ∧
      ((q.modifySeg s f).segs k).got = (q.segs k).got := by
    intro k
    by_cases hk : k = s
    · subst hk
      rw [modifySeg_self]
      exact ⟨hfate, hgot⟩
    · rw [modifySeg_of_ne hk]
      exact ⟨rfl, rfl⟩
  have htakers : ((q.modifySeg s f).places size).taker =
      Function.update (q.places size).taker (s * size + i) (some t) := by
    funext x
    by_cases hx : x = s * size + i
    · subst hx
      rw [Function.update_self, Chain.places]
      dsimp only
      rw [place_div hi, place_mod hi, modifySeg_self, htaker, Function.update_self]
    · rw [Function.update_of_ne hx, Chain.places, Chain.places]
      dsimp only
      by_cases hk : x / size = s
      · rw [hk, modifySeg_self, htaker, Function.update_of_ne]
        intro hmod
        refine hx ?_
        rw [← hk, ← hmod]
        exact place_eq size x
      · rw [modifySeg_of_ne hk]
  rw [PlaceLog.setTaker, ← htakers, Chain.places, Chain.places]
  simp only [(hsegs _).1, (hsegs _).2]

theorem places_given (hi : i < size) {t : Nat} {out : Option α} {f : Segment α → Segment α}
    (hfate : (f (q.segs s)).fate = (q.segs s).fate)
    (htaker : (f (q.segs s)).taker = (q.segs s).taker)
    (hgot : (f (q.segs s)).got = Function.update (q.segs s).got i ((t, out) :: (q.segs s).got i)) :
    (q.modifySeg s f).places size = (q.places size).setGiven (s * size + i) t := by
  have hsegs : ∀ k, ((q.modifySeg s f).segs k).fate = (q.segs k).fate ∧
      ((q.modifySeg s f).segs k).taker = (q.segs k).taker := by
    intro k
    by_cases hk : k = s
    · subst hk
      rw [modifySeg_self]
      exact ⟨hfate, htaker⟩
    · rw [modifySeg_of_ne hk]
      exact ⟨rfl, rfl⟩
  have hgiven : ((q.modifySeg s f).places size).given =
      Function.update (q.places size).given (s * size + i) (some t) := by
    funext x
    by_cases hx : x = s * size + i
    · subst hx
      rw [Function.update_self, Chain.places]
      dsimp only
      rw [place_div hi, place_mod hi, modifySeg_self, hgot, Function.update_self]
      rfl
    · rw [Function.update_of_ne hx, Chain.places, Chain.places]
      dsimp only
      by_cases hk : x / size = s
      · rw [hk, modifySeg_self, hgot, Function.update_of_ne]
        intro hmod
        refine hx ?_
        rw [← hk, ← hmod]
        exact place_eq size x
      · rw [modifySeg_of_ne hk]
  rw [PlaceLog.setGiven, ← hgiven, Chain.places, Chain.places]
  simp only [(hsegs _).1, (hsegs _).2]

theorem place_lt_iff {x : Nat} (hi : i < size) :
    x < s * size + i ↔ x / size < s ∨ x / size = s ∧ x % size < i := by
  have hx := place_eq size x
  have hmod : x % size < size := Nat.mod_lt x (by omega)
  rcases Nat.lt_trichotomy (x / size) s with hlt | heq | hgt
  · have hle : (x / size + 1) * size ≤ s * size := Nat.mul_le_mul_right size hlt
    rw [Nat.succ_mul] at hle
    exact iff_of_true (by omega) (.inl hlt)
  · rw [heq] at hx
    constructor
    · exact fun h => .inr ⟨heq, by omega⟩
    · rintro (h | ⟨-, h⟩) <;> omega
  · have hle : (s + 1) * size ≤ x / size * size := Nat.mul_le_mul_right size hgt
    rw [Nat.succ_mul] at hle
    exact iff_of_false (by omega) (by omega)

theorem Fate.entry_ne {fate : Fate α} (h : fate.entry ≠ none) : fate ≠ .free := by
  rintro rfl
  exact h rfl

theorem Shared.put_lt (h : Shared size q) {x : Nat} (hput : (q.places size).put x ≠ none) :
    x / size ≤ q.last ∧ x % size < (q.segs (x / size)).enqPos := by
  have hfate : (q.segs (x / size)).fate (x % size) ≠ .free := Fate.entry_ne hput
  constructor
  · by_contra hlt
    rw [h.unlinked _ (Nat.not_le.mp hlt)] at hfate
    exact hfate rfl
  · by_contra hlt
    exact hfate (((h.seg _).claimed _).mpr (.inl (Nat.not_lt.mp hlt)))

theorem Shared.taker_iff (h : Shared size q) (hsize : 0 < size) (x : Nat) :
    (q.places size).taker x ≠ none ↔ x % size < (q.segs (x / size)).deqPos := by
  have hmod : x % size < size := Nat.mod_lt x hsize
  change (q.segs (x / size)).taker (x % size) ≠ none ↔ _
  rw [ne_eq, (h.seg _).taken]
  omega

theorem Shared.taker_beyond (h : Shared size q) {x : Nat} (hx : q.last < x / size) :
    (q.places size).taker x = none := by
  change (q.segs (x / size)).taker (x % size) = none
  rw [h.unlinked _ hx]
  rfl

/-- An element is claimed by one consumer, which has it until it returns. -/
theorem takes_of_own {w : World Nat (Chain α) (Pc α)}
    (hown : ∀ t, Own size t w.shared (w.own t)) {x c : Nat} {j : Job α}
    (hput : (w.shared.places size).put x ≠ none) (htaker : (w.shared.places size).taker x = some c)
    (hgiven : (w.shared.places size).given x = none) (hdoing : Doing c (w.own c) j) : j = .take := by
  obtain hgot | hburnt | hholds := (hown c).resolved (x / size) (x % size) htaker
  · refine absurd (List.head?_eq_none_iff.mp ?_) hgot
    exact Option.map_eq_none_iff.mp hgiven
  · change ((w.shared.segs (x / size)).fate (x % size)).entry ≠ none at hput
    rw [hburnt] at hput
    exact absurd rfl hput
  · exact hdoing.takes hholds

/-- A producer claims the next position of the last segment. -/
theorem Shared.puts (h : Shared size q) (hsize : 0 < size) {t op : Nat} {v : α}
    (hs : s ≤ q.last) (hpos : (q.segs s).enqPos < size) :
    (q.places size).Moves True t (.put v false) none ((q.claimCells size t op s [v]).places size)
      (.put v true) := by
  have hlast : s = q.last := by
    by_contra hne
    have := h.filled s (by omega)
    omega
  have hplaces : (q.claimCells size t op s [v]).places size =
      (q.places size).setPut (s * size + (q.segs s).enqPos) t v := by
    refine places_put hpos (o := op) ?_ ?_ ?_ ?_
    · change ((q.modifySeg s _).segs s).fate _ = _
      rw [modifySeg_self]
      simp [Segment.claimCells, hpos]
    · intro k j hne
      change (((q.modifySeg s _).segs k).fate j).entry = _
      by_cases hk : k = s
      · subst hk
        rw [modifySeg_self]
        have hj : j ≠ (q.segs k).enqPos := fun hj => hne ⟨rfl, hj⟩
        simp only [Segment.claimCells]
        split
        · rw [List.getElem?_eq_none (by simp; omega)]
        · rfl
      · rw [modifySeg_of_ne hk]
    · intro k
      change ((q.modifySeg s _).segs k).taker = _
      by_cases hk : k = s
      · subst hk
        rw [modifySeg_self]
        rfl
      · rw [modifySeg_of_ne hk]
    · intro k
      change ((q.modifySeg s _).segs k).got = _
      by_cases hk : k = s
      · subst hk
        rw [modifySeg_self]
        rfl
      · rw [modifySeg_of_ne hk]
  rw [hplaces]
  refine .puts _ v (fun y hy => ?_) fun hnone y hy => ?_
  · rw [place_lt_iff hpos]
    have hput := h.put_lt hy
    rcases Nat.lt_or_eq_of_le hput.1 with hlt | heq
    · exact .inl (hlast ▸ hlt)
    · refine .inr ⟨heq.trans hlast.symm, ?_⟩
      rw [hlast, ← heq]
      exact hput.2
  · have hle : (q.segs s).deqPos ≤ (q.segs s).enqPos := by
      have htaker := mt (h.taker_iff hsize (s * size + (q.segs s).enqPos)).mpr (not_not.mpr hnone)
      rw [place_div hpos, place_mod hpos] at htaker
      exact Nat.not_lt.mp htaker
    rcases Nat.lt_or_ge q.last (y / size) with hbeyond | hwithin
    · exact h.taker_beyond hbeyond
    · by_contra htaker
      have hclaimed := (h.taker_iff hsize y).mp htaker
      have hbefore : ¬y < s * size + (q.segs s).enqPos := by omega
      rw [place_lt_iff hpos] at hbefore
      have heq : y / size = s := by omega
      rw [heq] at hclaimed
      have hmod : y % size = (q.segs s).enqPos := by omega
      have hself := place_eq size y
      rw [heq, hmod] at hself
      omega

theorem Shared.links (h : Shared size q) (hsize : 0 < size) {t op : Nat} {v : α} :
    (q.places size).Moves True t (.put v false) none
      ((q.append op q.last (freshSegment t op (some v))).places size) (.put v true) := by
  have hself : (q.append op q.last (freshSegment t op (some v))).segs (q.last + 1) =
      freshSegment t op (some v) := Function.update_self ..
  have hother : ∀ k, k ≠ q.last + 1 →
      (q.append op q.last (freshSegment t op (some v))).segs k = q.segs k :=
    fun k hk => Function.update_of_ne hk ..
  have hnew : q.segs (q.last + 1) = .new := h.unlinked _ (Nat.lt_succ_self _)
  have hplaces : (q.append op q.last (freshSegment t op (some v))).places size =
      (q.places size).setPut ((q.last + 1) * size + 0) t v := by
    refine places_put hsize (o := op) ?_ (fun k j hne => ?_) (fun k => ?_) fun k => ?_
    · rw [hself]
      rfl
    · by_cases hk : k = q.last + 1
      · subst hk
        have hj : j ≠ 0 := fun hj => hne ⟨rfl, hj⟩
        rw [hself, hnew]
        have hfree : (freshSegment t op (some v)).fate j = .free :=
          Function.update_of_ne (f := fun _ => Fate.free) hj _
        rw [hfree]
        rfl
      · rw [hother k hk]
    · by_cases hk : k = q.last + 1
      · subst hk
        rw [hself, hnew]
        rfl
      · rw [hother k hk]
    · by_cases hk : k = q.last + 1
      · subst hk
        rw [hself, hnew]
        rfl
      · rw [hother k hk]
  rw [hplaces]
  refine .puts _ v (fun y hy => ?_) fun _ y hy => ?_
  · rw [place_lt_iff hsize]
    exact .inl (Nat.lt_succ_of_le (h.put_lt hy).1)
  · refine h.taker_beyond ?_
    by_contra hle
    have hbefore : y < (q.last + 1) * size + 0 := (place_lt_iff hsize).mpr (.inl (by omega))
    omega

/-- A consumer claims the next position of a segment that is not behind the head. -/
theorem Shared.claims (h : Shared size q) (hsize : 0 < size) {t : Nat} (hs : s ≤ q.head)
    (hpos : (q.segs s).deqPos < size) :
    (q.places size).Moves True t .take none
      ((q.modifySeg s (.claimTaken size t 1)).places size) .take := by
  have hplaces : (q.modifySeg s (.claimTaken size t 1)).places size =
      (q.places size).setTaker (s * size + (q.segs s).deqPos) t := by
    refine places_taker hpos rfl ?_ rfl
    funext j
    by_cases hj : j = (q.segs s).deqPos
    · subst hj
      rw [Function.update_self]
      exact if_pos ⟨le_rfl, by omega⟩
    · rw [Function.update_of_ne hj]
      exact if_neg (by omega)
  rw [hplaces]
  refine .claims _ ?_ fun y hy _ => ?_
  · by_contra htaker
    have hclaimed := (h.taker_iff hsize _).mp htaker
    rw [place_div hpos, place_mod hpos] at hclaimed
    omega
  · rw [h.taker_iff hsize]
    obtain hlt | ⟨heq, hlt⟩ := (place_lt_iff hpos).mp hy
    · have hpassed := h.passed (y / size) (by omega)
      have hmod : y % size < size := Nat.mod_lt y hsize
      omega
    · rw [heq]
      exact hlt

theorem Shared.gives (h : Shared size q) {t : Nat} (hclaimed : Claimed size t q s i (i + 1))
    (hfull : (q.segs s).state i = .full) :
    ∃ v, (q.segs s).storage i = some v ∧
      (q.places size).Moves True t .take (some (.taken v))
        ((q.modifySeg s (.consumeCell t i)).places size) .rest := by
  have hi : i < size := hclaimed.le
  obtain ⟨htaker, hgot⟩ := hclaimed.mine i le_rfl (Nat.lt_succ_self i)
  have hcell := (h.seg s).cell i
  obtain ⟨p, op, v, hfate⟩ : ∃ p op v, (q.segs s).fate i = .put p op v := by
    cases hfate : (q.segs s).fate i with
    | free =>
      rw [hfate] at hcell
      cases hfull.symm.trans hcell.1
    | burnt =>
      rw [hfate] at hcell
      exact absurd hfull hcell.1
    | put p op v => exact ⟨p, op, v, rfl⟩
  rw [hfate] at hcell
  refine ⟨v, hcell.2.1 hfull hgot, ?_⟩
  rw [places_given hi (f := .consumeCell t i) rfl rfl rfl]
  refine .gives _ p v ?_ ?_ ?_
  · change ((q.segs _).fate _).entry = _
    rw [place_div hi, place_mod hi, hfate]
    rfl
  · change (q.segs _).taker _ = _
    rw [place_div hi, place_mod hi]
    exact htaker
  · change ((q.segs _).got _).head?.map Prod.fst = _
    rw [place_div hi, place_mod hi, hgot]
    rfl

theorem Drained.places (h : Drained q) (size : Nat) : (q.places size).Drained := by
  intro x hput
  obtain ⟨t, op, v, hfate⟩ :
      ∃ t op v, (q.segs (x / size)).fate (x % size) = .put t op v := by
    change ((q.segs (x / size)).fate (x % size)).entry ≠ none at hput
    cases hfate : (q.segs (x / size)).fate (x % size) with
    | free | burnt =>
      rw [hfate] at hput
      exact absurd rfl hput
    | put t op v => exact ⟨t, op, v, rfl⟩
  exact h _ _ t op v hfate

end Places

/-! ### The steps -/

section Steps

variable {size t : Nat} {q : Chain α} {pc : Pc α} {j : Job α}

def Moved (size t : Nat) (q : Chain α) (pc : Pc α) (j : Job α) (next : Chain α × Pc α) : Prop :=
  ∃ j', Doing t next.2 j' ∧
    (q.places size).Moves True t j (pc.reply q next.2) (next.1.places size) j'

theorem Moved.same {q' : Chain α} {pc' : Pc α} (hdoing : Doing t pc' j) (hne : pc' ≠ .idle)
    (hplaces : q'.places size = q.places size) : Moved size t q pc j (q', pc') := by
  refine ⟨j, hdoing, ?_⟩
  have hreply : pc.reply q pc' = none := by
    cases pc' with
    | idle => exact absurd rfl hne
    | _ => rfl
  rw [hreply, hplaces]
  exact .same j

theorem Moved.sent {q' : Chain α} (v : α) (hreply : pc.reply q .idle = some (.sent true))
    (hplaces : q'.places size = q.places size) : Moved size t q pc (.put v true) (q', .idle) := by
  refine ⟨.rest, .idle, ?_⟩
  rw [hreply, hplaces]
  exact .sent v

theorem Moved.empty (hreply : pc.reply q .idle = some .empty) (hdrained : Drained q) :
    Moved size t q pc .take (q, .idle) := by
  refine ⟨.rest, .idle, ?_⟩
  rw [hreply]
  exact .empty fun _ => hdrained.places size

theorem segs_swingTail (q : Chain α) (s : Nat) : (q.swingTail s).segs = q.segs := by
  unfold Chain.swingTail
  split <;> rfl

theorem swingHead_segs (q : Chain α) (s : Nat) : (q.swingHead s).segs = q.segs := by
  unfold Chain.swingHead
  split <;> rfl

theorem nextTake_retry (q : Chain α) (s i : Nat) :
    nextTake q none s (i + 1) (i + 1) [] = (q, .loadDeq none s) := by
  rw [nextTake, if_neg (Nat.lt_irrefl _)]
  rfl

theorem nextTake_done (q : Chain α) (s i : Nat) (x : Option α) :
    nextTake q none s (i + 1) (i + 1) [x] = (q, .idle) := by
  rw [nextTake, if_neg (Nat.lt_irrefl _)]
  rfl

theorem moved_claim (hs : Shared size q) (hsize : 0 < size) {op s : Nat} {v : α} (spurious : Bool)
    (hlinked : s ≤ q.last) :
    Moved size t q (.claim true op s [v]) (.put v false)
      (exec size t spurious q (.claim true op s [v])) := by
  rw [exec]
  by_cases hfull : size ≤ (q.segs s).enqPos
  · rw [if_pos hfull]
    refine .same (.loadNext op s v) nofun (places_modifySeg (fun j => ?_) rfl rfl)
    simp only [Segment.claimCells]
    rw [if_neg (by omega)]
  · rw [if_neg hfull]
    have hstop : decide ((q.segs s).enqPos + [v].length > size) = false := by
      rw [decide_eq_false_iff_not]
      simp only [List.length_singleton]
      omega
    rw [hstop]
    exact ⟨.put v true, .publish .., hs.puts hsize hlinked (Nat.not_le.mp hfull)⟩

theorem moved_publish {op s i stop : Nat} {vs : List α} {v : α} (spurious : Bool)
    (h : Own size t q (.publish true op s i stop false vs)) :
    Moved size t q (.publish true op s i stop false vs) (.put v true)
      (exec size t spurious q (.publish true op s i stop false vs)) := by
  obtain ⟨-, -, -, hcarry⟩ := h.fits
  have hlen := (hcarry rfl).2
  rw [exec.eq_def]
  dsimp only
  split
  · cases vs with
    | nil => exact .same (.publish ..) (by rintro ⟨⟩) rfl
    | cons u vs =>
      exact .same (.publish ..) (by rintro ⟨⟩) (places_modifySeg (fun _ => rfl) rfl rfl)
  · obtain rfl : vs = [] := List.eq_nil_of_length_eq_zero (by omega)
    exact .sent v rfl rfl

theorem moved_link (hs : Shared size q) (hsize : 0 < size) {op s : Nat} {v : α} (spurious : Bool) :
    Moved size t q (.link true op s (freshSegment t op (some v)) []) (.put v false)
      (exec size t spurious q (.link true op s (freshSegment t op (some v)) [])) := by
  rw [exec]
  split
  · rename_i hlast
    subst hlast
    exact ⟨.put v true, .swingLast .., hs.links hsize⟩
  · exact .same (.swing op s v) nofun rfl

theorem moved_claimTaken (hs : Shared size q) (hsize : 0 < size) {s : Nat} {pc' : Pc α}
    (hhead : s ≤ q.head) (hpos : (q.segs s).deqPos < size) (hdoing : Doing t pc' .take)
    (hne : pc' ≠ .idle) :
    Moved size t q pc .take (q.modifySeg s (.claimTaken size t 1), pc') := by
  have hreply : pc.reply q pc' = none := by
    cases pc' with
    | idle => exact absurd rfl hne
    | _ => rfl
  refine ⟨.take, hdoing, ?_⟩
  rw [hreply]
  exact hs.claims hsize hhead hpos

theorem moved_casDeq (hs : Shared size q) (hsize : 0 < size) {s d : Nat} (spurious : Bool)
    (h : Own size t q (.casDeq none s d)) (hseen : Seen size q (.casDeq none s d : Pc α)) :
    Moved size t q (.casDeq none s d) .take (exec size t spurious q (.casDeq none s d)) := by
  obtain ⟨-, hd, -⟩ := h.fits
  rw [exec]
  split
  · rename_i hwin
    exact moved_claimTaken hs hsize hseen (hwin.1 ▸ hd) (.consume s d) nofun
  · exact .same (.loadDeq s) nofun rfl

theorem moved_addDeq (hs : Shared size q) (hsize : 0 < size) {s : Nat} (spurious : Bool)
    (hseen : Seen size q (.addDeq none s 1 : Pc α)) :
    Moved size t q (.addDeq none s 1) .take (exec size t spurious q (.addDeq none s 1)) := by
  rw [exec]
  by_cases hfull : size ≤ (q.segs s).deqPos
  · rw [if_pos hfull]
    refine .same (.loadDeq s) nofun (places_modifySeg (fun _ => rfl) (funext fun j => ?_) rfl)
    exact if_neg (by omega)
  · rw [if_neg hfull, Nat.min_eq_left (Nat.not_le.mp hfull)]
    exact moved_claimTaken hs hsize hseen (Nat.not_le.mp hfull) (.takeState s _) nofun

theorem moved_takeState {s i : Nat} (spurious : Bool) :
    Moved size t q (.takeState none s i (i + 1) []) .take
      (exec size t spurious q (.takeState none s i (i + 1) [])) := by
  rw [exec]
  split
  · exact .same (.takeEnq s i) nofun rfl
  · exact .same (.consume s i) nofun rfl
  · rw [nextTake_retry]
    exact .same (.loadDeq s) nofun rfl

theorem moved_takeCas (hs : Shared size q) {s i e : Nat} (spurious : Bool) :
    Moved size t q (.takeCas none s i (i + 1) e []) .take
      (exec size t spurious q (.takeCas none s i (i + 1) e [])) := by
  rw [exec]
  split
  · rename_i hwin
    refine .same (.burn s e i) nofun (places_modifySeg (fun j => ?_) rfl rfl)
    simp only [Segment.burnCells]
    split
    · rename_i hj
      -- no producer has claimed the positions that are burnt
      rw [((hs.seg s).claimed j).mpr (.inl (by omega))]
      rfl
    · rfl
  · exact .same (.takeEnq s i) nofun rfl

theorem moved_burn {s j i : Nat} (spurious : Bool) :
    Moved size t q (.burn none s j i (i + 1) []) .take
      (exec size t spurious q (.burn none s j i (i + 1) [])) := by
  rw [exec]
  split
  · exact .same (.burn s _ i) nofun (places_modifySeg (fun _ => rfl) rfl rfl)
  · rw [nextTake_retry]
    exact .same (.loadDeq s) nofun rfl

theorem moved_consume (hs : Shared size q) {s i : Nat} (spurious : Bool)
    (h : Own size t q (.consume none s i (i + 1) [])) :
    Moved size t q (.consume none s i (i + 1) []) .take
      (exec size t spurious q (.consume none s i (i + 1) [])) := by
  obtain ⟨hclaimed, hfull⟩ := h.fits
  obtain ⟨v, hstorage, hgives⟩ := hs.gives hclaimed hfull
  rw [exec, List.nil_append, nextTake_done]
  refine ⟨.rest, .idle, ?_⟩
  have hreply : (Pc.consume none s i (i + 1) [] : Pc α).reply q .idle = some (.taken v) := by
    rw [Pc.reply, hstorage]
    rfl
  rw [hreply]
  exact hgives

theorem moved_scan {s d limit ready : Nat} (spurious : Bool) :
    Moved size t q (.scan none s d limit ready) .take
      (exec size t spurious q (.scan none s d limit ready)) := by
  rw [exec]
  split
  · exact .same (.scan ..) nofun rfl
  · rw [afterScan]
    split
    · exact .same (.checkEmpty s d) nofun rfl
    · split
      · exact .same (.casDeq s d) nofun rfl
      · exact .same (.addDeq s) nofun rfl

/-- A step of a call of the chain, seen at the places. -/
theorem moved_exec (hs : Shared size q) (hsize : 0 < size) (h : Own size t q pc)
    (hseen : Seen size q pc) (hdoing : Doing t pc j) (hjob : j ≠ .rest) (spurious : Bool) :
    Moved size t q pc j (exec size t spurious q pc) := by
  cases hdoing with
  | idle => exact absurd rfl hjob
  | protectTail op v => exact .same (.claim op _ v) nofun rfl
  | claim op s v =>
    obtain ⟨htail, -⟩ := h.fits
    exact moved_claim hs hsize spurious (htail.trans hs.tail_le)
  | loadNext op s v =>
    rw [exec]
    split
    · exact .same (.swing op s v) nofun rfl
    · exact .same (.link op s v) nofun rfl
  | link op s v => exact moved_link hs hsize spurious
  | swing op s v => exact .same (.protectTail op v) nofun (places_of_segs (segs_swingTail q s))
  | publish op s i stop vs v => exact moved_publish spurious h
  | swingLast op s v => exact .sent v rfl (places_of_segs (segs_swingTail q s))
  | protectHead => exact .same (.loadDeq _) nofun rfl
  | loadDeq s =>
    rw [exec]
    split
    · exact .same (.loadHeadNext s) nofun rfl
    · exact .same (.scan ..) nofun rfl
  | scan s d limit ready => exact moved_scan spurious
  | checkEmpty s d =>
    rw [exec]
    split
    · rename_i hempty
      exact .empty rfl (drained_of_checkEmpty hs hseen hempty)
    · exact .same (.loadDeq s) nofun rfl
  | casDeq s d => exact moved_casDeq hs hsize spurious h hseen
  | addDeq s => exact moved_addDeq hs hsize spurious hseen
  | takeState s i => exact moved_takeState spurious
  | takeEnq s i =>
    rw [exec]
    split
    · exact .same (.takeState s i) nofun rfl
    · exact .same (.takeCas s i _) nofun rfl
  | takeCas s i e => exact moved_takeCas hs spurious
  | burn s j i => exact moved_burn spurious
  | consume s i => exact moved_consume hs spurious h
  | loadHeadNext s =>
    rw [exec]
    split
    · exact .same (.swingHead s) nofun rfl
    · rename_i hlast
      exact .empty rfl (drained_of_loadHeadNext hs hseen hlast)
  | swingHead s => exact .same .protectHead nofun (places_of_segs (swingHead_segs q s))

end Steps

end Uvent.Queue.Segmented
