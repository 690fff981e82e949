import Mathlib.Data.List.Nodup
import Uvent.Array.LockFreeVector

/-!
# What `emplace_back` publishes

An index belongs to the call that took it, and the cell of the index shows how far that call has
come.  What one thread does to the vector leaves alone the indices of the others, their
candidates and everything that is ready.
-/

namespace Uvent.LockFreeVector

open Uvent.Lib

variable {α : Type}

def Cell.raw : Cell α := ⟨.empty, none⟩

namespace Stage

def holder : Stage α → Option Nat
  | .waiting t _ | .writing t _ | .ready t _ => some t
  | _ => none

def isReady : Stage α → Bool
  | .ready _ _ | .returned _ => true
  | _ => false

/-- The cell of an index whose call has come this far; its bucket may not be there yet. -/
def Fits : Stage α → Option (Cell α) → Prop
  | .free, c | .waiting _ _, c => ∀ x, c = some x → x = .raw
  | .writing _ _, c => ∃ x, c = some x ∧ x.state = .writing
  | .ready _ v, c | .returned v, c => c = some ⟨.ready, some v⟩

end Stage

structure Sound (s : State α) : Prop where
  bound : s.allocIdx + 1 < 2 ^ 64
  installed : ∀ L b, s.buckets L = some b → b < s.fresh ∧ s.caps b = pow2 L
  single : s.Single
  fits : ∀ i, i + 1 < 2 ^ 64 → (s.stage i).Fits (s.cellAt i)
  free : ∀ i, s.stage i = .free ↔ s.allocIdx ≤ i
  ready : ∀ i < s.published, (s.stage i).isReady = true
  returned : ∀ i v, (i, v) ∈ s.returned ↔ s.stage i = .returned v
  nodup : (s.returned.map Prod.fst).Nodup

structure Spare (s : State α) (t b L : Nat) : Prop where
  maker : s.maker b = t
  allocated : b < s.fresh
  cap : s.caps b = pow2 L
  uninstalled : ∀ L', s.buckets L' ≠ some b
  raw : ∀ off, s.cells b off = .raw

structure Rely (t : Nat) (s s' : State α) : Prop where
  stage : ∀ i, (s.stage i).holder = some t → s'.stage i = s.stage i
  cell : ∀ i c, (s.stage i).holder = some t → s.cellAt i = some c → s'.cellAt i = some c
  buckets : ∀ L b, s.buckets L = some b → s'.buckets L = some b
  ready : ∀ i, (s.stage i).isReady = true → (s'.stage i).isReady = true
  spare : ∀ b L, Spare s t b L → Spare s' t b L
  published : s.published ≤ s'.published
  allocIdx : s.allocIdx ≤ s'.allocIdx

structure Scanned (s : State α) (cur scan : Nat) : Prop where
  cur_le : cur ≤ s.published
  le_scan : cur ≤ scan
  scan_le : scan ≤ s.allocIdx
  ready : ∀ j, cur ≤ j → j < scan → (s.stage j).isReady = true

def Own (t : Nat) (s : State α) : Pc α → Prop
  | .idle => True
  | .ensure i v | .allocate i v => s.stage i = .waiting t v
  | .install i v cand => s.stage i = .waiting t v ∧ Spare s t cand (level i)
  | .loadBucket i v => s.stage i = .waiting t v ∧ ∃ b, s.buckets (level i) = some b
  | .loadState i v b | .claim i v b => s.stage i = .waiting t v ∧ s.buckets (level i) = some b
  | .waitReady _ _ _ => False
  | .construct i v b => s.stage i = .writing t v ∧ s.buckets (level i) = some b
  | .publish i v b =>
      s.stage i = .writing t v ∧ s.buckets (level i) = some b ∧
        ∃ c, s.cellAt i = some c ∧ c.storage = some v
  | .check i v | .loadCur i v => s.stage i = .ready t v
  | .curBucket i v cur => s.stage i = .ready t v ∧ cur ≤ s.published
  | .curState i v cur b =>
      s.stage i = .ready t v ∧ cur ≤ s.published ∧ s.buckets (level cur) = some b
  | .scanBucket i v cur scan | .advance i v cur scan =>
      s.stage i = .ready t v ∧ Scanned s cur scan
  | .scanState i v cur scan b =>
      s.stage i = .ready t v ∧ Scanned s cur scan ∧ s.buckets (level scan) = some b

section Facts

variable {s s' : State α} {t t' i j b cur scan : Nat} {v : α} {c : Cell α} {st : Stage α}

theorem Sound.lt_word (hs : Sound s) (hi : s.stage i ≠ .free) : i + 1 < 2 ^ 64 := by
  have hbound := hs.bound
  have hlt : i < s.allocIdx := Nat.lt_of_not_le fun hle => hi ((hs.free i).mpr hle)
  omega

theorem Sound.published_le (hs : Sound s) : s.published ≤ s.allocIdx := by
  by_contra hcontra
  have hready := hs.ready s.allocIdx (Nat.lt_of_not_le hcontra)
  rw [(hs.free s.allocIdx).mpr (Nat.le_refl _)] at hready
  exact Bool.noConfusion hready

theorem Sound.cell_of_ready (hs : Sound s) (hi : (s.stage i).isReady = true) :
    ∃ b v, s.buckets (level i) = some b ∧ s.cells b (offset i) = ⟨.ready, some v⟩ := by
  have hne : s.stage i ≠ .free := by
    intro heq
    rw [heq] at hi
    exact Bool.noConfusion hi
  have hfits := hs.fits i (hs.lt_word hne)
  have hcell : ∃ v, s.cellAt i = some ⟨.ready, some v⟩ := by
    match hst : s.stage i with
    | .ready t v | .returned v =>
        rw [hst] at hfits
        exact ⟨v, hfits⟩
    | .free | .waiting t v | .writing t v =>
        rw [hst] at hi
        exact Bool.noConfusion hi
  obtain ⟨v, hcell⟩ := hcell
  obtain ⟨b, hb, hbc⟩ := Option.map_eq_some_iff.mp hcell
  exact ⟨b, v, hb, hbc⟩

theorem Sound.ready_of_cell (hs : Sound s) (hi : i + 1 < 2 ^ 64)
    (hb : s.buckets (level i) = some b) (hready : (s.cells b (offset i)).state = .ready) :
    (s.stage i).isReady = true := by
  have hfits := hs.fits i hi
  rw [cellAt_some hb] at hfits
  match hst : s.stage i with
  | .ready _ _ | .returned _ => rfl
  | .free | .waiting _ _ =>
      rw [hst] at hfits
      rw [hfits _ rfl] at hready
      exact CellState.noConfusion hready
  | .writing _ _ =>
      rw [hst] at hfits
      obtain ⟨x, hx, hwriting⟩ := hfits
      cases hx
      rw [hwriting] at hready
      exact CellState.noConfusion hready

/-! ### Writes to a cell -/

theorem Sound.setCell (hs : Sound s) (hb : s.buckets (level i) = some b)
    (hi : s.stage i ≠ .free) (hopen : ∀ v, s.stage i ≠ .returned v) (hst : st ≠ .free)
    (hst' : ∀ v, st ≠ .returned v) (hready : (s.stage i).isReady = true → st.isReady = true)
    (hfits : st.Fits (some c)) : Sound ((s.setCell i b c).setStage i st) := by
  have hword := hs.lt_word hi
  refine ⟨hs.bound, hs.installed, hs.single, ?_, ?_, ?_, ?_, hs.nodup⟩
  · refine (Function.forall_update_iff s.stage fun j st => j + 1 < 2 ^ 64 →
      st.Fits ((s.toVec.setCell b (offset i) c).cellAt j)).mpr ⟨fun _ => ?_, fun j hji hj => ?_⟩
    · rw [cellAt_setCell_self hb]
      exact hfits
    · rw [cellAt_setCell_ne hs.single hb hword hj hji]
      exact hs.fits j hj
  · refine (Function.forall_update_iff s.stage fun j st => st = .free ↔ s.allocIdx ≤ j).mpr
      ⟨?_, fun j _ => hs.free j⟩
    rw [← hs.free]
    exact ⟨fun h => absurd h hst, fun h => absurd h hi⟩
  · exact (Function.forall_update_iff s.stage fun j st => j < s.published → st.isReady = true).mpr
      ⟨fun hj => hready (hs.ready i hj), fun j _ => hs.ready j⟩
  · refine (Function.forall_update_iff s.stage fun j st =>
      ∀ v, (j, v) ∈ s.returned ↔ st = .returned v).mpr ⟨fun v => ?_, fun j _ => hs.returned j⟩
    rw [hs.returned]
    exact ⟨fun h => absurd h (hopen v), fun h => absurd h (hst' v)⟩

theorem rely_setCell (hs : Sound s) (hb : s.buckets (level i) = some b)
    (hi : (s.stage i).holder = some t) (hready : (s.stage i).isReady = true → st.isReady = true)
    (ht : t' ≠ t) : Rely t' s ((s.setCell i b c).setStage i st) := by
  have hother : ∀ j, (s.stage j).holder = some t' → j ≠ i := by
    intro j hj hji
    rw [hji, hi] at hj
    exact ht (Option.some.inj hj).symm
  have hword : ∀ {j t}, (s.stage j).holder = some t → j + 1 < 2 ^ 64 := by
    intro j t hj
    refine hs.lt_word fun heq => ?_
    rw [heq] at hj
    exact nomatch hj
  refine ⟨?_, ?_, fun _ _ h => h, ?_, ?_, Nat.le_refl _, Nat.le_refl _⟩
  · intro j hj
    exact Function.update_of_ne (hother j hj) ..
  · intro j x hj hx
    exact (cellAt_setCell_ne hs.single hb (hword hi) (hword hj) (hother j hj)).trans hx
  · exact (Function.forall_update_iff s.stage fun j st =>
      (s.stage j).isReady = true → st.isReady = true).mpr ⟨hready, fun _ _ h => h⟩
  · intro b' L hspare
    refine ⟨hspare.maker, hspare.allocated, hspare.cap, hspare.uninstalled, fun off => ?_⟩
    have hne : b' ≠ b := fun heq => hspare.uninstalled _ (heq ▸ hb)
    change Function.update s.cells b _ b' off = _
    rw [Function.update_of_ne hne]
    exact hspare.raw off

/-! ### The other steps -/

theorem Rely.refl (t : Nat) (s : State α) : Rely t s s :=
  ⟨fun _ _ => rfl, fun _ _ _ h => h, fun _ _ h => h, fun _ h => h, fun _ _ h => h, Nat.le_refl _,
    Nat.le_refl _⟩

theorem Sound.take (hs : Sound s) (room : s.allocIdx + 2 < 2 ^ 64) : Sound (s.take t v) := by
  have hfree : s.stage s.allocIdx = .free := (hs.free _).mpr (Nat.le_refl _)
  refine ⟨room, hs.installed, hs.single, ?_, ?_, ?_, ?_, hs.nodup⟩
  · refine (Function.forall_update_iff s.stage fun j st => j + 1 < 2 ^ 64 →
      st.Fits (s.cellAt j)).mpr ⟨fun hj => ?_, fun j _ => hs.fits j⟩
    have hfits := hs.fits _ hj
    rw [hfree] at hfits
    exact hfits
  · intro j
    change Function.update s.stage s.allocIdx (.waiting t v) j = .free ↔ s.allocIdx + 1 ≤ j
    by_cases hja : j = s.allocIdx
    · subst hja
      rw [Function.update_self]
      exact ⟨nofun, fun h => absurd h (Nat.not_succ_le_self _)⟩
    · rw [Function.update_of_ne hja, hs.free]
      omega
  · intro j hj
    have hja : j ≠ s.allocIdx := Nat.ne_of_lt (Nat.lt_of_lt_of_le hj hs.published_le)
    change (Function.update s.stage s.allocIdx (.waiting t v) j).isReady = true
    rw [Function.update_of_ne hja]
    exact hs.ready j hj
  · refine (Function.forall_update_iff s.stage fun j st =>
      ∀ v, (j, v) ∈ s.returned ↔ st = .returned v).mpr ⟨fun v' => ?_, fun j _ => hs.returned j⟩
    rw [hs.returned, hfree]
    exact ⟨nofun, nofun⟩

theorem rely_take (hs : Sound s) : Rely t' s (s.take t v) := by
  have hfree : s.stage s.allocIdx = .free := (hs.free _).mpr (Nat.le_refl _)
  refine ⟨?_, fun _ _ _ h => h, fun _ _ h => h, ?_, fun _ _ h => ⟨h.1, h.2, h.3, h.4, h.5⟩,
    Nat.le_refl _, Nat.le_succ _⟩
  · intro j hj
    refine Function.update_of_ne (fun hja => ?_) ..
    rw [hja, hfree] at hj
    exact nomatch hj
  · intro j hj
    have hja : j ≠ s.allocIdx := by
      intro heq
      rw [heq, hfree] at hj
      exact Bool.noConfusion hj
    change (Function.update s.stage s.allocIdx (.waiting t v) j).isReady = true
    rw [Function.update_of_ne hja]
    exact hj

theorem Sound.allocate (hs : Sound s) (cap : Nat) : Sound (s.allocate t cap) := by
  refine ⟨hs.bound, ?_, hs.single, ?_, hs.free, hs.ready, hs.returned, hs.nodup⟩
  · intro L b hb
    obtain ⟨hlt, hcap⟩ := hs.installed L b hb
    refine ⟨Nat.lt_succ_of_lt hlt, ?_⟩
    change Function.update s.caps s.fresh cap b = _
    rw [Function.update_of_ne (Nat.ne_of_lt hlt)]
    exact hcap
  · intro j hj
    change (s.stage j).Fits ((s.toVec.allocate cap).cellAt j)
    rw [cellAt_allocate fun L b hb => (hs.installed L b hb).1]
    exact hs.fits j hj

theorem spare_allocate (hs : Sound s) (L : Nat) :
    Spare (s.allocate t (pow2 L)) t s.fresh L := by
  refine ⟨Function.update_self .., Nat.lt_succ_self _, Function.update_self .., ?_, fun off => ?_⟩
  · intro L' hb
    exact Nat.lt_irrefl _ (hs.installed L' _ hb).1
  · change Function.update s.cells s.fresh _ s.fresh off = _
    rw [Function.update_self]
    rfl

theorem rely_allocate (hs : Sound s) (cap : Nat) : Rely t' s (s.allocate t cap) := by
  refine ⟨fun _ _ => rfl, ?_, fun _ _ h => h, fun _ h => h, ?_, Nat.le_refl _, Nat.le_refl _⟩
  · intro j c _ hc
    exact (cellAt_allocate (fun L b hb => (hs.installed L b hb).1) cap j).trans hc
  · intro b L hspare
    have hne : b ≠ s.fresh := Nat.ne_of_lt hspare.allocated
    refine ⟨?_, Nat.lt_succ_of_lt hspare.allocated, ?_, hspare.uninstalled, fun off => ?_⟩
    · exact (Function.update_of_ne hne ..).trans hspare.maker
    · exact (Function.update_of_ne hne ..).trans hspare.cap
    · change Function.update s.cells s.fresh _ b off = _
      rw [Function.update_of_ne hne]
      exact hspare.raw off

/-- The cells of a bucket that comes to its level are those of calls that wait for it. -/
theorem Sound.install (hs : Sound s) {L : Nat} (hspare : Spare s t b L)
    (hnone : s.buckets L = none) : Sound (s.install L b) := by
  refine ⟨hs.bound, ?_, hs.single.install hspare.uninstalled, ?_, hs.free, hs.ready, hs.returned,
    hs.nodup⟩
  · intro L' b' hb'
    change Function.update s.buckets L (some b) L' = some b' at hb'
    by_cases hL : L' = L
    · subst hL
      rw [Function.update_self] at hb'
      cases hb'
      exact ⟨hspare.allocated, hspare.cap⟩
    · rw [Function.update_of_ne hL] at hb'
      exact hs.installed L' b' hb'
  · intro j hj
    have hfits := hs.fits j hj
    by_cases hL : level j = L
    · have hnew : (s.install L b).cellAt j = some .raw :=
        (cellAt_install_self hL).trans (congrArg some (hspare.raw _))
      have hold : s.cellAt j = none := by
        unfold Vec.cellAt
        rw [hL, hnone]
        rfl
      rw [hold] at hfits
      rw [hnew]
      change (s.stage j).Fits _
      match hst : s.stage j with
      | .free | .waiting _ _ => exact fun x hx => (Option.some.inj hx).symm
      | .writing _ _ =>
          rw [hst] at hfits
          obtain ⟨x, hx, -⟩ := hfits
          exact nomatch hx
      | .ready _ _ | .returned _ =>
          rw [hst] at hfits
          exact nomatch hfits
    · have hsame : (s.install L b).cellAt j = s.cellAt j := cellAt_install_ne hL
      rw [hsame]
      exact hfits

theorem rely_install {L : Nat} (hspare : Spare s t b L) (hnone : s.buckets L = none)
    (ht : t' ≠ t) : Rely t' s (s.install L b) := by
  have hkeep : ∀ L' b', s.buckets L' = some b' → (s.install L b).buckets L' = some b' := by
    intro L' b' hb'
    refine (Function.update_of_ne (fun hL => ?_) ..).trans hb'
    rw [hL, hnone] at hb'
    exact nomatch hb'
  refine ⟨fun _ _ => rfl, ?_, hkeep, fun _ h => h, ?_, Nat.le_refl _, Nat.le_refl _⟩
  · intro j c _ hc
    obtain ⟨b', hb', hbc⟩ := Option.map_eq_some_iff.mp hc
    rw [cellAt_some (hkeep _ _ hb'), ← hbc]
    rfl
  · intro b' L' hspare'
    refine ⟨hspare'.maker, hspare'.allocated, hspare'.cap, fun L₁ hb' => ?_, hspare'.raw⟩
    change Function.update s.buckets L (some b) L₁ = some b' at hb'
    by_cases hL : L₁ = L
    · rw [hL, Function.update_self] at hb'
      have hbb : b = b' := Option.some.inj hb'
      have hmaker := hspare'.maker
      rw [← hbb, hspare.maker] at hmaker
      exact ht hmaker.symm
    · rw [Function.update_of_ne hL] at hb'
      exact hspare'.uninstalled L₁ hb'

theorem Sound.finish (hs : Sound s) (hst : s.stage i = .ready t v) : Sound (s.finish i v) := by
  have hne : s.stage i ≠ .free := by
    rw [hst]
    exact nofun
  refine ⟨hs.bound, hs.installed, hs.single, ?_, ?_, ?_, ?_, ?_⟩
  · refine (Function.forall_update_iff s.stage fun j st => j + 1 < 2 ^ 64 →
      st.Fits (s.cellAt j)).mpr ⟨fun hj => ?_, fun j _ => hs.fits j⟩
    have hfits := hs.fits i hj
    rw [hst] at hfits
    exact hfits
  · refine (Function.forall_update_iff s.stage fun j st => st = .free ↔ s.allocIdx ≤ j).mpr
      ⟨?_, fun j _ => hs.free j⟩
    rw [← hs.free]
    exact ⟨nofun, fun h => absurd h hne⟩
  · exact (Function.forall_update_iff s.stage fun j st => j < s.published → st.isReady = true).mpr
      ⟨fun _ => rfl, fun j _ => hs.ready j⟩
  · intro j v'
    change (j, v') ∈ (i, v) :: s.returned ↔ Function.update s.stage i (.returned v) j = .returned v'
    rw [List.mem_cons, hs.returned]
    by_cases hji : j = i
    · subst hji
      rw [Function.update_self, hst]
      constructor
      · rintro (heq | heq)
        · rw [(Prod.mk.inj heq).2]
        · exact nomatch heq
      · intro heq
        exact .inl (by rw [Stage.returned.inj heq])
    · rw [Function.update_of_ne hji]
      exact ⟨fun h => h.resolve_left fun heq => hji (Prod.mk.inj heq).1, .inr⟩
  · refine List.nodup_cons.mpr ⟨fun hmem => ?_, hs.nodup⟩
    obtain ⟨⟨j, v'⟩, hmem, hji⟩ := List.mem_map.mp hmem
    have hji' : j = i := hji
    rw [hs.returned, hji', hst] at hmem
    exact nomatch hmem

theorem rely_finish (hst : s.stage i = .ready t v) (ht : t' ≠ t) : Rely t' s (s.finish i v) := by
  refine ⟨?_, fun _ _ _ h => h, fun _ _ h => h, ?_, fun _ _ h => ⟨h.1, h.2, h.3, h.4, h.5⟩,
    Nat.le_refl _, Nat.le_refl _⟩
  · intro j hj
    refine Function.update_of_ne (fun hji => ?_) ..
    rw [hji, hst] at hj
    exact ht (Option.some.inj hj).symm
  · exact (Function.forall_update_iff s.stage fun j st =>
      (s.stage j).isReady = true → st.isReady = true).mpr ⟨fun _ => rfl, fun _ _ h => h⟩

theorem Sound.advance (hs : Sound s) (hscan : Scanned s s.published scan) :
    Sound { s with published := scan } := by
  refine ⟨hs.bound, hs.installed, hs.single, hs.fits, hs.free, fun j hj => ?_, hs.returned,
    hs.nodup⟩
  rcases Nat.lt_or_ge j s.published with hlt | hge
  · exact hs.ready j hlt
  · exact hscan.ready j hge hj

theorem rely_advance (hscan : Scanned s s.published scan) :
    Rely t' s { s with published := scan } :=
  ⟨fun _ _ => rfl, fun _ _ _ h => h, fun _ _ h => h, fun _ h => h,
    fun _ _ h => ⟨h.1, h.2, h.3, h.4, h.5⟩, hscan.le_scan, Nat.le_refl _⟩

/-! ### What a thread knows -/

theorem Scanned.rely (h : Scanned s cur scan) (hr : Rely t s s') : Scanned s' cur scan :=
  ⟨Nat.le_trans h.cur_le hr.published, h.le_scan, Nat.le_trans h.scan_le hr.allocIdx,
    fun j hge hlt => hr.ready j (h.ready j hge hlt)⟩

theorem Own.rely {pc : Pc α} (h : Own t s pc) (hr : Rely t s s') : Own t s' pc := by
  have hstage : ∀ {i st}, s.stage i = st → st.holder = some t → s'.stage i = st := by
    intro i st hst hholder
    exact (hr.stage i (by rw [hst]; exact hholder)).trans hst
  cases pc with
  | idle => trivial
  | ensure i v => exact hstage h rfl
  | allocate i v => exact hstage h rfl
  | install i v cand => exact ⟨hstage h.1 rfl, hr.spare _ _ h.2⟩
  | loadBucket i v =>
      obtain ⟨hst, b, hb⟩ := h
      exact ⟨hstage hst rfl, b, hr.buckets _ _ hb⟩
  | loadState i v b => exact ⟨hstage h.1 rfl, hr.buckets _ _ h.2⟩
  | claim i v b => exact ⟨hstage h.1 rfl, hr.buckets _ _ h.2⟩
  | waitReady i v b => exact h
  | construct i v b => exact ⟨hstage h.1 rfl, hr.buckets _ _ h.2⟩
  | publish i v b =>
      obtain ⟨hst, hb, c, hc, hv⟩ := h
      have hholder : (s.stage i).holder = some t := by rw [hst]; rfl
      exact ⟨hstage hst rfl, hr.buckets _ _ hb, c, hr.cell i c hholder hc, hv⟩
  | check i v => exact hstage h rfl
  | loadCur i v => exact hstage h rfl
  | curBucket i v cur => exact ⟨hstage h.1 rfl, Nat.le_trans h.2 hr.published⟩
  | curState i v cur b =>
      exact ⟨hstage h.1 rfl, Nat.le_trans h.2.1 hr.published, hr.buckets _ _ h.2.2⟩
  | scanBucket i v cur scan => exact ⟨hstage h.1 rfl, h.2.rely hr⟩
  | scanState i v cur scan b => exact ⟨hstage h.1 rfl, h.2.1.rely hr, hr.buckets _ _ h.2.2⟩
  | advance i v cur scan => exact ⟨hstage h.1 rfl, h.2.rely hr⟩

end Facts

end Uvent.LockFreeVector
