import Uvent.Array.VectorCalls

/-!
# Sequences of calls on the vector

As long as every call fits, between two calls each cell is empty or has its element, and none at
or behind the count has one.  A call that does not fit publishes nothing, or waits for an element
that nobody is going to build.
-/

namespace Uvent.LockFreeVector

variable {α : Type} {v v' : Vec α} {i j b fuel : Nat} {x : α} {c : Cell α} {alloc : Bool}

structure Settled (v : Vec α) : Prop where
  installed : ∀ L b, v.buckets L = some b → b < v.fresh
  single : v.Single
  le : v.published ≤ v.allocIdx
  cells : ∀ i c, i + 1 < 2 ^ 64 → v.cellAt i = some c →
    c = ⟨.empty, none⟩ ∨ ∃ x, c = ⟨.ready, some x⟩
  behind : ∀ i c, v.published ≤ i → i + 1 < 2 ^ 64 → v.cellAt i = some c → c = ⟨.empty, none⟩

/-! ### Cells -/

theorem isReady_iff : v.isReady i = true ↔ ∃ c, v.cellAt i = some c ∧ c.state = .ready := by
  unfold Vec.isReady
  cases v.cellAt i with
  | none => exact ⟨nofun, nofun⟩
  | some c =>
      rw [decide_eq_true_iff]
      exact ⟨fun h => ⟨c, rfl, h⟩, fun ⟨_, hc, h⟩ => Option.some.inj hc ▸ h⟩

theorem present_of_lt (hi : i < v.published) (hc : v.cellAt i = some c) :
    v.present i = c.element := by
  unfold Vec.present
  rw [if_pos (show i < v.size from hi), hc]
  rfl

theorem present_of_none (hc : v.cellAt i = none) : v.present i = none := by
  unfold Vec.present
  rw [hc]
  exact ite_self _

theorem present_of_le (hi : v.published ≤ i) : v.present i = none :=
  if_neg (Nat.not_lt_of_le hi)

theorem present_congr (hpub : i < v'.published ↔ i < v.published)
    (hcell : (v'.cellAt i).bind Cell.element = (v.cellAt i).bind Cell.element) :
    v'.present i = v.present i := by
  unfold Vec.present
  rw [hcell]
  exact if_congr hpub rfl rfl

theorem Settled.not_ready (hv : Settled v) (hi : v.published ≤ i) (hw : i + 1 < 2 ^ 64) :
    v.isReady i = false := by
  by_contra hready
  obtain ⟨c, hc, hstate⟩ := isReady_iff.mp (eq_true_of_ne_false hready)
  rw [hv.behind i c hi hw hc] at hstate
  exact CellState.noConfusion hstate

/-! ### Insertion -/

/-- `ensure_bucket` brings an empty bucket at most. -/
structure Ensured (v v' : Vec α) (L : Nat) : Prop where
  settled : Settled v'
  published : v'.published = v.published
  allocIdx : v'.allocIdx = v.allocIdx
  found : ∃ b, v'.buckets L = some b
  cells : ∀ j, v'.cellAt j = v.cellAt j ∨
    v.cellAt j = none ∧ v'.cellAt j = some ⟨.empty, none⟩

theorem Settled.install (hv : Settled v) {L : Nat} (cap : Nat) (hnone : v.buckets L = none) :
    Ensured v ((v.allocate cap).install L v.fresh) L := by
  have hfresh : ∀ L', (v.allocate cap).buckets L' ≠ some v.fresh := fun L' hb =>
    Nat.lt_irrefl _ (hv.installed L' _ hb)
  have hcells : ∀ j, ((v.allocate cap).install L v.fresh).cellAt j = v.cellAt j ∨
      v.cellAt j = none ∧
        ((v.allocate cap).install L v.fresh).cellAt j = some ⟨.empty, none⟩ := by
    intro j
    by_cases hL : level j = L
    · refine .inr ⟨?_, ?_⟩
      · unfold Vec.cellAt
        rw [hL, hnone]
        rfl
      · rw [cellAt_install_self hL]
        change some (Function.update v.cells v.fresh _ v.fresh (offset j)) = _
        rw [Function.update_self]
    · exact .inl ((cellAt_install_ne hL).trans (cellAt_allocate hv.installed cap j))
  have hsingle : (v.allocate cap).Single := hv.single
  refine ⟨⟨?_, hsingle.install hfresh, hv.le, ?_, ?_⟩, rfl, rfl,
    ⟨v.fresh, Function.update_self ..⟩, hcells⟩
  · intro L' b hb
    change Function.update v.buckets L (some v.fresh) L' = some b at hb
    by_cases hL : L' = L
    · rw [hL, Function.update_self] at hb
      exact Option.some.inj hb ▸ Nat.lt_succ_self _
    · rw [Function.update_of_ne hL] at hb
      exact Nat.lt_succ_of_lt (hv.installed L' b hb)
  · intro j c hj hc
    rcases hcells j with heq | ⟨-, heq⟩
    · exact hv.cells j c hj (heq ▸ hc)
    · rw [heq] at hc
      exact .inl (Option.some.inj hc).symm
  · intro j c hle hj hc
    rcases hcells j with heq | ⟨-, heq⟩
    · exact hv.behind j c hle hj (heq ▸ hc)
    · rw [heq] at hc
      exact (Option.some.inj hc).symm

theorem Settled.ensureBucket (hv : Settled v) (alloc : Bool) (L : Nat) :
    v.ensureBucket alloc L = none ∧ v.Refused alloc L ∨
      ¬ v.Refused alloc L ∧ ∃ v', v.ensureBucket alloc L = some v' ∧ Ensured v v' L := by
  unfold Vec.ensureBucket Vec.Refused
  cases hb : v.buckets L with
  | some b =>
      have hsame : Ensured v v L := ⟨hv, rfl, rfl, ⟨b, hb⟩, fun _ => .inl rfl⟩
      exact .inr ⟨fun h => (nomatch h.1), v, rfl, hsame⟩
  | none =>
      dsimp only
      by_cases hmax : maxBucket < pow2 L
      · exact .inl ⟨if_pos hmax, rfl, .inl hmax⟩
      · cases alloc with
        | false => exact .inl ⟨if_neg hmax, rfl, .inr rfl⟩
        | true =>
            refine .inr ⟨fun h => h.2.elim hmax nofun, _, if_neg hmax, hv.install _ hb⟩

theorem Settled.take (hv : Settled v) : Settled { v with allocIdx := v.allocIdx + 1 } :=
  ⟨hv.installed, hv.single, Nat.le_succ_of_le hv.le, hv.cells, hv.behind⟩

theorem emplaceBack_refused (hv : Settled v)
    (hrefused : v.Refused alloc (level v.allocIdx)) :
    v.emplaceBack fuel alloc x = some (.threw, { v with allocIdx := v.allocIdx + 1 }) := by
  have hnone : Vec.ensureBucket { v with allocIdx := v.allocIdx + 1 } alloc (level v.allocIdx) =
      none := by
    rcases hv.take.ensureBucket alloc (level v.allocIdx) with ⟨hnone, -⟩ | ⟨hnot, -⟩
    · exact hnone
    · exact absurd hrefused hnot
  unfold Vec.emplaceBack
  dsimp only
  rw [hnone]

theorem emplaceBack_built (hv : Settled v) (hw : v.allocIdx + 1 < 2 ^ 64) (alloc : Bool)
    (hgiven : ¬ v.Refused alloc (level v.allocIdx)) (x : α) :
    ∃ v₁ b, Ensured { v with allocIdx := v.allocIdx + 1 } v₁ (level v.allocIdx) ∧
      v₁.buckets (level v.allocIdx) = some b ∧
      ∀ fuel, v.emplaceBack (fuel + 1) alloc x =
        if v.allocIdx = v.published then
          (Vec.advancePublished (fuel + 1)
            (v₁.setCell b (offset v.allocIdx) ⟨.ready, some x⟩)).bind
              fun v' => some (.index v.allocIdx, v')
        else
          some (.index v.allocIdx, v₁.setCell b (offset v.allocIdx) ⟨.ready, some x⟩) := by
  rcases hv.take.ensureBucket alloc (level v.allocIdx) with ⟨-, hrefused⟩ | ⟨-, v₁, heq, hens⟩
  · exact absurd hrefused hgiven
  · obtain ⟨b, hb⟩ := hens.found
    refine ⟨v₁, b, hens, hb, fun fuel => ?_⟩
    have hle : v₁.published ≤ v.allocIdx := Nat.le_trans (Nat.le_of_eq hens.published) hv.le
    have hraw := hens.settled.behind _ _ hle hw (cellAt_some hb)
    have hspin : spin (fuel + 1)
        (decide ((v₁.cells b (offset v.allocIdx)).state = .empty)) = some () := by
      rw [hraw]
      rfl
    have hpub : (v₁.setCell b (offset v.allocIdx) ⟨.ready, some x⟩).published = v.published :=
      hens.published
    unfold Vec.emplaceBack
    dsimp only
    rw [heq]
    dsimp only
    rw [hb]
    dsimp only
    rw [hspin, hpub]
    rfl

/-- The element of a call whose index is that of the count is published, and nothing behind it. -/
theorem advancePublished_one {w : Vec α} (hready : w.isReady w.published = true)
    (hstop : w.isReady (w.published + 1) = false) (fuel : Nat) :
    Vec.advancePublished (fuel + 3) w = some { w with published := w.published + 1 } := by
  have hscan : w.scan (fuel + 2) w.published = some (w.published + 1) := by
    rw [Vec.scan, if_pos hready, Vec.scan, hstop]
    rfl
  have hend : Vec.isReady { w with published := w.published + 1 } (w.published + 1) = false := hstop
  rw [Vec.advancePublished, if_pos hready, hscan]
  change Vec.advancePublished (fuel + 2) { w with published := w.published + 1 } = _
  rw [Vec.advancePublished]
  dsimp only
  rw [hend]
  rfl

theorem Ensured.counted {v₁ : Vec α}
    (hens : Ensured { v with allocIdx := v.allocIdx + 1 } v₁ (level v.allocIdx))
    (hw : v.allocIdx + 1 < 2 ^ 64) (hb : v₁.buckets (level v.allocIdx) = some b) (heq : v.published = v.allocIdx) (x : α) :
    Settled { v₁.setCell b (offset v.allocIdx) ⟨.ready, some x⟩ with
        published := v.allocIdx + 1 } ∧
      ∀ j, Vec.present { v₁.setCell b (offset v.allocIdx) ⟨.ready, some x⟩ with
        published := v.allocIdx + 1 } j = if j = v.allocIdx then some x else v.present j := by
  have hv₁ := hens.settled
  have hpub₁ : v₁.published = v.allocIdx := hens.published.trans heq
  have halloc₁ : v₁.allocIdx = v.allocIdx + 1 := hens.allocIdx
  have hself : (v₁.setCell b (offset v.allocIdx) ⟨.ready, some x⟩).cellAt v.allocIdx =
      some ⟨.ready, some x⟩ := cellAt_setCell_self hb
  have hother : ∀ j, j + 1 < 2 ^ 64 → j ≠ v.allocIdx →
      (v₁.setCell b (offset v.allocIdx) ⟨.ready, some x⟩).cellAt j = v₁.cellAt j :=
    fun j hj hne => cellAt_setCell_ne hv₁.single hb hw hj hne
  refine ⟨⟨hv₁.installed, hv₁.single, Nat.le_of_eq halloc₁.symm, ?_, ?_⟩, ?_⟩
  · intro j c hj hc
    by_cases hjp : j = v.allocIdx
    · rw [hjp] at hc
      exact .inr ⟨x, (Option.some.inj (hself.symm.trans hc)).symm⟩
    · exact hv₁.cells j c hj ((hother j hj hjp).symm.trans hc)
  · intro j c hle hj hc
    have hle' : v.allocIdx + 1 ≤ j := hle
    have hjp : j ≠ v.allocIdx := by omega
    exact hv₁.behind j c (by omega) hj ((hother j hj hjp).symm.trans hc)
  · intro j
    by_cases hjp : j = v.allocIdx
    · rw [hjp, if_pos rfl]
      exact present_of_lt
        (v := { v₁.setCell b (offset v.allocIdx) ⟨.ready, some x⟩ with published := v.allocIdx + 1 })
        (Nat.lt_succ_self v.allocIdx) hself
    · rw [if_neg hjp]
      rcases Nat.lt_or_gt_of_ne hjp with hlt | hgt
      · refine present_congr ?_ ?_
        · change j < v.allocIdx + 1 ↔ j < v.published
          omega
        · change ((v₁.setCell b (offset v.allocIdx) ⟨.ready, some x⟩).cellAt j).bind _ = _
          rw [hother j (by omega) hjp]
          rcases hens.cells j with hsame | ⟨hnone, hnew⟩
          · rw [hsame]
            rfl
          · change v.cellAt j = none at hnone
            rw [hnew, hnone]
            rfl
      · rw [present_of_le (show v.published ≤ j by omega)]
        exact present_of_le (show v.allocIdx + 1 ≤ j from hgt)

theorem emplaceBack_fits (hv : Settled v) (hw : v.allocIdx + 2 < 2 ^ 64) (alloc : Bool) (x : α)
    (hfits : (Call.emplaceBack alloc x).Fits v) :
    ∃ r v', Returns (.emplaceBack alloc x) v r v' ∧
      (Call.emplaceBack alloc x).Effect v v' r ∧ Settled v' ∧ v'.allocIdx ≤ v.allocIdx + 1 := by
  by_cases hrefused : v.Refused alloc (level v.allocIdx)
  · exact ⟨.threw, _, ⟨0, emplaceBack_refused hv hrefused⟩, ⟨rfl, fun _ => rfl⟩, hv.take,
      Nat.le_refl _⟩
  · have heq : v.published = v.allocIdx := hfits.resolve_right hrefused
    have hw' : v.allocIdx + 1 < 2 ^ 64 := Nat.lt_of_succ_lt hw
    obtain ⟨v₁, b, hens, hb, hrun⟩ := emplaceBack_built hv hw' alloc hrefused x
    obtain ⟨hsettled, hpresent⟩ := hens.counted hw' hb heq x
    have hpub : (v₁.setCell b (offset v.allocIdx) ⟨.ready, some x⟩).published = v.allocIdx :=
      hens.published.trans heq
    have hready : (v₁.setCell b (offset v.allocIdx) ⟨.ready, some x⟩).isReady v.allocIdx = true :=
      isReady_iff.mpr ⟨_, cellAt_setCell_self hb, rfl⟩
    have hstop : (v₁.setCell b (offset v.allocIdx) ⟨.ready, some x⟩).isReady (v.allocIdx + 1) =
        false := by
      have hle : v₁.published ≤ v.allocIdx + 1 := Nat.le_succ_of_le (Nat.le_of_eq hpub)
      have hnot := hens.settled.not_ready hle hw
      unfold Vec.isReady at hnot ⊢
      rw [cellAt_setCell_ne hens.settled.single hb hw' hw (Nat.succ_ne_self _)]
      exact hnot
    have hadvance := advancePublished_one (w := v₁.setCell b (offset v.allocIdx) ⟨.ready, some x⟩)
      (by rw [hpub]; exact hready) (by rw [hpub]; exact hstop) 0
    rw [hpub] at hadvance
    refine ⟨.index v.allocIdx, _, ⟨3, ?_⟩, ⟨present_of_le (Nat.le_of_eq heq), hpresent⟩, hsettled,
      Nat.le_of_eq hens.allocIdx⟩
    change v.emplaceBack 3 alloc x = _
    rw [hrun, if_pos heq.symm, hadvance]
    rfl

/-- An insertion that does not fit puts its element behind the count. -/
theorem emplaceBack_over (hv : Settled v) (hw : v.allocIdx + 2 < 2 ^ 64) {r : Ret}
    (hreturns : Returns (.emplaceBack alloc x) v r v')
    (heffect : (Call.emplaceBack alloc x).Effect v v' r) : (Call.emplaceBack alloc x).Fits v := by
  by_contra hover
  have hrefused : ¬ v.Refused alloc (level v.allocIdx) := fun h => hover (.inr h)
  have hne : v.allocIdx ≠ v.published := fun h => hover (.inl h.symm)
  obtain ⟨v₁, b, hens, hb, hrun⟩ :=
    emplaceBack_built hv (Nat.lt_of_succ_lt hw) alloc hrefused x
  have hreturns' : Returns (.emplaceBack alloc x) v (.index v.allocIdx)
      (v₁.setCell b (offset v.allocIdx) ⟨.ready, some x⟩) := by
    refine ⟨1, ?_⟩
    change v.emplaceBack 1 alloc x = _
    rw [hrun, if_neg hne]
  obtain ⟨rfl, rfl⟩ := returns_unique hreturns hreturns'
  have hthere := heffect.2 v.allocIdx
  have hpub : (v₁.setCell b (offset v.allocIdx) ⟨.ready, some x⟩).published ≤ v.allocIdx :=
    Nat.le_trans (Nat.le_of_eq hens.published) hv.le
  rw [if_pos rfl, present_of_le hpub] at hthere
  exact nomatch hthere

/-! ### Removal -/

/-- The cell of an element below the count is emptied, and the count goes down to `p`, past empty
cells. -/
theorem Settled.remove (hv : Settled v) (hw : v.allocIdx + 1 < 2 ^ 64) (hi : i < v.published)
    (hb : v.buckets (level i) = some b) {p : Nat} (hp : p ≤ v.published)
    (hpast : ∀ j, p ≤ j → j < v.published →
      (v.setCell b (offset i) ⟨.empty, none⟩).cellAt j = some ⟨.empty, none⟩) :
    Settled { v.setCell b (offset i) ⟨.empty, none⟩ with published := p } ∧
      ∀ j, Vec.present { v.setCell b (offset i) ⟨.empty, none⟩ with published := p } j =
        if j = i then none else v.present j := by
  have hle := hv.le
  have hself : (v.setCell b (offset i) ⟨.empty, none⟩).cellAt i = some ⟨.empty, none⟩ :=
    cellAt_setCell_self hb
  have hother : ∀ j, j + 1 < 2 ^ 64 → j ≠ i →
      (v.setCell b (offset i) ⟨.empty, none⟩).cellAt j = v.cellAt j :=
    fun j hj hne => cellAt_setCell_ne hv.single hb (by omega) hj hne
  refine ⟨⟨hv.installed, hv.single, Nat.le_trans hp hle, ?_, ?_⟩, ?_⟩
  · intro j c hj hc
    by_cases hji : j = i
    · rw [hji] at hc
      exact .inl (Option.some.inj (hself.symm.trans hc)).symm
    · exact hv.cells j c hj ((hother j hj hji).symm.trans hc)
  · intro j c hle' hj hc
    change p ≤ j at hle'
    change (v.setCell b (offset i) ⟨.empty, none⟩).cellAt j = some c at hc
    rcases Nat.lt_or_ge j v.published with hlt | hge
    · rw [hpast j hle' hlt] at hc
      exact (Option.some.inj hc).symm
    · exact hv.behind j c hge hj ((hother j hj (by omega)).symm.trans hc)
  · intro j
    by_cases hji : j = i
    · rw [hji, if_pos rfl]
      unfold Vec.present
      change (if i < p then ((v.setCell b (offset i) ⟨.empty, none⟩).cellAt i).bind _ else none) = _
      rw [hself]
      exact ite_self _
    · rw [if_neg hji]
      rcases Nat.lt_or_ge j p with hlt | hge
      · refine present_congr ?_ ?_
        · change j < p ↔ j < v.published
          omega
        · change ((v.setCell b (offset i) ⟨.empty, none⟩).cellAt j).bind _ = _
          rw [hother j (by omega) hji]
      · have hgone : Vec.present { v.setCell b (offset i) ⟨.empty, none⟩ with published := p } j =
            none := present_of_le hge
        rw [hgone]
        rcases Nat.lt_or_ge j v.published with hlt | hge'
        · have hempty := (hother j (by omega) hji).symm.trans (hpast j hge hlt)
          exact (present_of_lt hlt hempty).symm
        · exact (present_of_le hge').symm

theorem popBack_fits (hv : Settled v) (hw : v.allocIdx + 1 < 2 ^ 64)
    (hfits : (Call.popBack : Call α).Fits v) :
    ∃ r v', Returns .popBack v r v' ∧ (Call.popBack : Call α).Effect v v' r ∧ Settled v' ∧
      v'.allocIdx ≤ v.allocIdx := by
  by_cases hzero : v.published = 0
  · refine ⟨.bool false, v, ⟨0, if_pos hzero⟩, ⟨?_, ?_, fun h => absurd hzero h, fun j => ?_⟩, hv,
      Nat.le_refl _⟩
    · change _ = Ret.bool (decide (v.published ≠ 0))
      rw [hzero]
      rfl
    · change v.published = v.published - 1
      omega
    · rw [present_of_le (show v.published ≤ j by omega), ite_self]
  · obtain ⟨c, hc, hready⟩ := isReady_iff.mp (hfits.resolve_left hzero)
    change v.cellAt (v.published - 1) = some c at hc
    obtain ⟨b, hb, hbc⟩ := Option.map_eq_some_iff.mp hc
    have hlast : v.published - 1 < v.published := by omega
    have hle := hv.le
    obtain ⟨hsettled, hpresent⟩ := hv.remove hw hlast hb (Nat.sub_le _ 1) (fun j hge hlt => by
      have hj : j = v.published - 1 := by omega
      rw [hj]
      exact cellAt_setCell_self hb)
    have hspin : spin 1
        (decide ((v.cells b (offset (v.published - 1))).state = .ready)) = some () := by
      rw [hbc, hready]
      rfl
    refine ⟨.bool true, _, ⟨1, ?_⟩, ⟨?_, rfl, fun _ => ?_, hpresent⟩, hsettled, Nat.le_refl _⟩
    · change v.popBack 1 = _
      unfold Vec.popBack
      rw [if_neg hzero]
      dsimp only
      rw [hb]
      dsimp only
      rw [hspin]
      rfl
    · change _ = Ret.bool (decide (v.published ≠ 0))
      rw [decide_eq_true hzero]
    · change (v.present (v.published - 1)).isSome = true
      rw [present_of_lt hlast hc]
      rcases hv.cells _ c (by omega) hc with rfl | ⟨x, rfl⟩
      · exact CellState.noConfusion hready
      · rfl

/-- A removal at the end that ends had its element. -/
theorem popBack_over {r : Ret} (hreturns : Returns .popBack v r v') :
    (Call.popBack : Call α).Fits v := by
  by_cases hzero : v.published = 0
  · exact .inl hzero
  · obtain ⟨fuel, hrun⟩ := hreturns
    change v.popBack fuel = _ at hrun
    unfold Vec.popBack at hrun
    rw [if_neg hzero] at hrun
    dsimp only at hrun
    split at hrun
    · exact nomatch hrun
    · rename_i b hb
      obtain ⟨_, hspin, -⟩ := Option.bind_eq_some_iff.mp hrun
      refine .inr (isReady_iff.mpr ⟨_, cellAt_some hb, ?_⟩)
      exact of_decide_eq_true (spin_succ hspin).1

theorem shrinkPublishedTail_spec (n : Nat) : ∀ v : Vec α, v.published = n →
    (∀ j c, j < n → v.cellAt j = some c → c.state = .empty → c = ⟨.empty, none⟩) →
    ∃ p, p ≤ n ∧ Vec.shrinkPublishedTail (n + 1) v = some { v with published := p } ∧
      ∀ j, p ≤ j → j < n → v.cellAt j = some ⟨.empty, none⟩ := by
  induction n with
  | zero =>
      intro v hn _
      have hsame : v = { v with published := 0 } := by rw [← hn]
      refine ⟨0, Nat.le_refl 0, ?_, fun j _ hj => absurd hj (Nat.not_lt_zero j)⟩
      rw [Vec.shrinkPublishedTail, if_pos hn, ← hsame]
  | succ n ih =>
      intro v hn hraw
      have hpos : v.published ≠ 0 := by omega
      have hlast : v.published - 1 = n := by omega
      have hsame : v = { v with published := n + 1 } := by rw [← hn]
      have hstay : Vec.shrinkPublishedTail (n + 2) v = some v →
          ∃ p, p ≤ n + 1 ∧
            Vec.shrinkPublishedTail (n + 2) v = some { v with published := p } ∧
            ∀ j, p ≤ j → j < n + 1 → v.cellAt j = some ⟨.empty, none⟩ := by
        intro hrun
        exact ⟨n + 1, Nat.le_refl _, hrun.trans (congrArg some hsame), fun j hge hlt =>
          absurd hlt (Nat.not_lt_of_le hge)⟩
      cases hc : v.cellAt n with
      | none =>
          refine hstay ?_
          rw [Vec.shrinkPublishedTail, if_neg hpos, hlast, hc]
      | some c =>
          by_cases hempty : c.state = .empty
          · obtain ⟨p, hp, hrun, hpast⟩ := ih { v with published := n } rfl
              fun j c hj => hraw j c (Nat.lt_succ_of_lt hj)
            refine ⟨p, Nat.le_succ_of_le hp, ?_, fun j hge hlt => ?_⟩
            · rw [Vec.shrinkPublishedTail, if_neg hpos, hlast, hc]
              dsimp only
              rw [if_pos hempty, hrun]
            · rcases Nat.lt_or_eq_of_le (Nat.le_of_lt_succ hlt) with hlt' | rfl
              · exact hpast j hge hlt'
              · rw [hc, hraw j c hlt hc hempty]
          · refine hstay ?_
            rw [Vec.shrinkPublishedTail, if_neg hpos, hlast, hc]
            dsimp only
            rw [if_neg hempty]

theorem erase_absent (hv : Settled v) (hrun : v.erase 0 i = some (.bool false, v))
    (habsent : v.present i = none) :
    ∃ r v', Returns (.erase i) v r v' ∧ (Call.erase i).Effect v v' r ∧ Settled v' ∧
      v'.allocIdx ≤ v.allocIdx := by
  refine ⟨.bool false, v, ⟨0, hrun⟩, ⟨by rw [habsent]; rfl, fun j => ?_⟩, hv, Nat.le_refl _⟩
  by_cases hji : j = i
  · rw [hji, if_pos rfl, habsent]
  · rw [if_neg hji]

theorem erase_fits (hv : Settled v) (hw : v.allocIdx + 1 < 2 ^ 64) (i : Nat) :
    ∃ r v', Returns (.erase i) v r v' ∧ (Call.erase i).Effect v v' r ∧ Settled v' ∧
      v'.allocIdx ≤ v.allocIdx := by
  have hle := hv.le
  rcases Nat.lt_or_ge i v.published with hlt | hge
  · have hi : ¬ v.published ≤ i := Nat.not_le_of_lt hlt
    cases hb : v.buckets (level i) with
    | none =>
        have hcell : v.cellAt i = none := by
          unfold Vec.cellAt
          rw [hb]
          rfl
        refine erase_absent hv ?_ (present_of_none hcell)
        unfold Vec.erase
        rw [if_neg hi, hb]
    | some b =>
        rcases hv.cells i _ (by omega) (cellAt_some hb) with hraw | ⟨x, hready⟩
        · refine erase_absent hv ?_ ?_
          · unfold Vec.erase
            rw [if_neg hi, hb]
            dsimp only
            rw [hraw]
          · rw [present_of_lt hlt (cellAt_some hb), hraw]
            rfl
        · have hraw : ∀ j c, j < v.published →
              (v.setCell b (offset i) ⟨.empty, none⟩).cellAt j = some c → c.state = .empty →
              c = ⟨.empty, none⟩ := by
            intro j c hj hc hempty
            by_cases hji : j = i
            · rw [hji, cellAt_setCell_self hb] at hc
              exact (Option.some.inj hc).symm
            · rw [cellAt_setCell_ne hv.single hb (by omega) (by omega) hji] at hc
              rcases hv.cells j c (by omega) hc with heq | ⟨x, rfl⟩
              · exact heq
              · exact CellState.noConfusion hempty
          obtain ⟨p, hp, hshrink, hpast⟩ := shrinkPublishedTail_spec v.published
            (v.setCell b (offset i) ⟨.empty, none⟩) rfl hraw
          obtain ⟨hsettled, hpresent⟩ := hv.remove hw hlt hb hp hpast
          refine ⟨.bool true, _, ⟨v.published + 1, ?_⟩, ⟨?_, hpresent⟩, hsettled, Nat.le_refl _⟩
          · change v.erase (v.published + 1) i = _
            unfold Vec.erase
            rw [if_neg hi, hb]
            dsimp only
            rw [hready]
            dsimp only
            rw [hshrink]
            rfl
          · rw [present_of_lt hlt (cellAt_some hb), hready]
            rfl
  · exact erase_absent hv (if_pos hge) (present_of_le hge)

/-! ### Sequences -/

theorem fits_right (hv : Settled v) (hw : v.allocIdx + 2 < 2 ^ 64) {c : Call α} (hfits : c.Fits v) :
    ∃ r v', Returns c v r v' ∧ c.Effect v v' r ∧ Settled v' ∧ v'.allocIdx ≤ v.allocIdx + 1 := by
  have hless : ∀ {c : Call α}, (∃ r v', Returns c v r v' ∧ c.Effect v v' r ∧ Settled v' ∧
      v'.allocIdx ≤ v.allocIdx) →
      ∃ r v', Returns c v r v' ∧ c.Effect v v' r ∧ Settled v' ∧ v'.allocIdx ≤ v.allocIdx + 1 :=
    fun ⟨r, v', hreturns, heffect, hsettled, hle⟩ =>
      ⟨r, v', hreturns, heffect, hsettled, Nat.le_succ_of_le hle⟩
  cases c with
  | emplaceBack alloc x => exact emplaceBack_fits hv hw alloc x hfits
  | popBack => exact hless (popBack_fits hv (Nat.lt_of_succ_lt hw) hfits)
  | erase i => exact hless (erase_fits hv (Nat.lt_of_succ_lt hw) i)

theorem right_fits (hv : Settled v) (hw : v.allocIdx + 2 < 2 ^ 64) {c : Call α} {r : Ret}
    (hreturns : Returns c v r v') (heffect : c.Effect v v' r) : c.Fits v := by
  cases c with
  | emplaceBack alloc x => exact emplaceBack_over hv hw hreturns heffect
  | popBack => exact popBack_over hreturns
  | erase i => trivial

theorem right_iff_fit (hv : Settled v) (calls : List (Call α))
    (hw : v.allocIdx + calls.length + 1 < 2 ^ 64) : AllRight calls v ↔ AllFit calls v := by
  induction calls generalizing v with
  | nil => exact Iff.rfl
  | cons c calls ih =>
      rw [List.length_cons] at hw
      constructor
      · rintro ⟨r, v', hreturns, heffect, hrest⟩
        have hfits := right_fits hv (by omega) hreturns heffect
        refine ⟨hfits, fun r₁ v₁ hreturns₁ => ?_⟩
        obtain ⟨r₂, v₂, hreturns₂, -, hsettled, hle⟩ := fits_right hv (by omega) hfits
        obtain ⟨-, rfl⟩ := returns_unique hreturns hreturns₁
        obtain ⟨-, rfl⟩ := returns_unique hreturns hreturns₂
        exact (ih hsettled (by omega)).mp hrest
      · rintro ⟨hfits, hrest⟩
        obtain ⟨r, v', hreturns, heffect, hsettled, hle⟩ := fits_right hv (by omega) hfits
        exact ⟨r, v', hreturns, heffect, (ih hsettled (by omega)).mpr (hrest r v' hreturns)⟩

theorem settled_new : Settled (Vec.new : Vec α) where
  installed := nofun
  single := nofun
  le := Nat.le_refl 0
  cells := fun _ _ _ h => nomatch h
  behind := fun _ _ _ _ h => nomatch h

/-- In every sequence of calls on a new vector, all calls end and do what they are to do exactly
when the count is where every insertion goes, or it throws, and every removal at the end finds
its element. -/
theorem vector_right_iff (calls : List (Call α)) (few : calls.length + 1 < 2 ^ 64) :
    AllRight calls Vec.new ↔ AllFit calls Vec.new :=
  right_iff_fit settled_new calls ((Nat.zero_add calls.length).symm ▸ few)

/-- An insertion, its removal and an erasure that finds nothing. -/
theorem vector_right_iff_three :
    AllRight [.emplaceBack true 1, .popBack, .erase 0] (Vec.new : Vec Nat) ↔
      AllFit [.emplaceBack true 1, .popBack, .erase 0] (Vec.new : Vec Nat) :=
  vector_right_iff _ (by decide)

/-- After a removal at the end nothing that is inserted is published. -/
theorem emplace_after_pop :
    ¬ AllRight [.emplaceBack true 1, .popBack, .emplaceBack true 2] (Vec.new : Vec Nat) := by
  intro hright
  have hfit := (right_iff_fit settled_new _ (by decide)).mp hright
  have hpopped := (hfit.2 _ _ ⟨3, rfl⟩).2 _ _ ⟨1, rfl⟩
  rcases hpopped.1 with hcount | ⟨-, hmax | halloc⟩
  · exact absurd hcount (by decide)
  · exact absurd hmax (by decide)
  · exact Bool.noConfusion halloc

end Uvent.LockFreeVector
