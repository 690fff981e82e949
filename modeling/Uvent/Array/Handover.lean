import Uvent.Array.Publication

/-!
# Who advances the count

A call whose cell becomes ready while the count stands at its index advances it, and a call that
advances does not stop before a ready cell.  So when the count stands at a ready cell somebody is
on the way there, and when no call is in progress everything is published.
-/

namespace Uvent.LockFreeVector

open Uvent.Lib

variable {α : Type} {s s' : State α} {t t' i b : Nat} {v : α} {pc pc' : Pc α}
  {w : World Nat (State α) (Pc α)}

/-! ### What one step keeps -/

theorem keeps_quiet (pc' : Pc α) (hs : Sound s) (ho : Own t s pc') :
    Sound s ∧ Own t s pc' ∧ ∀ t', t' ≠ t → Rely t' s s :=
  ⟨hs, ho, fun t' _ => Rely.refl t' s⟩

theorem keeps_finish (hs : Sound s) (hst : s.stage i = .ready t v) :
    Sound (s.finish i v) ∧ Own t (s.finish i v) .idle ∧ ∀ t', t' ≠ t → Rely t' s (s.finish i v) :=
  ⟨hs.finish hst, trivial, fun _ ht => rely_finish hst ht⟩

theorem Sound.waiting_raw (hs : Sound s) (hst : s.stage i = .waiting t v)
    (hb : s.buckets (level i) = some b) : s.cells b (offset i) = .raw := by
  have hfits := hs.fits i (hs.lt_word (by rw [hst]; exact nofun))
  rw [hst, cellAt_some hb] at hfits
  exact hfits _ rfl

theorem Sound.writing_state (hs : Sound s) (hst : s.stage i = .writing t v)
    (hb : s.buckets (level i) = some b) : (s.cells b (offset i)).state = .writing := by
  have hfits := hs.fits i (hs.lt_word (by rw [hst]; exact nofun))
  rw [hst, cellAt_some hb] at hfits
  obtain ⟨x, hx, hwriting⟩ := hfits
  rw [Option.some.inj hx]
  exact hwriting

theorem keeps_claim (hs : Sound s) (hst : s.stage i = .waiting t v)
    (hb : s.buckets (level i) = some b) :
    Sound (s.claim t i b v) ∧ Own t (s.claim t i b v) (.construct i v b) ∧
      ∀ t', t' ≠ t → Rely t' s (s.claim t i b v) := by
  have hready : (s.stage i).isReady = true → (Stage.writing t v).isReady = true := by
    rw [hst]
    exact nofun
  refine ⟨hs.setCell hb (by rw [hst]; exact nofun) (by rw [hst]; exact nofun) nofun nofun hready
    ⟨_, rfl, rfl⟩, ⟨Function.update_self .., hb⟩, fun t' ht => ?_⟩
  exact rely_setCell hs hb (by rw [hst]; rfl) hready ht

theorem construct_eq (s : State α) (i b : Nat) (v : α) :
    s.construct i b v =
      (s.setCell i b { s.cells b (offset i) with storage := some v }).setStage i (s.stage i) := by
  have hsame : Function.update s.stage i (s.stage i) = s.stage := Function.update_eq_self ..
  unfold State.setStage
  change _ = { s.construct i b v with stage := Function.update s.stage i (s.stage i) }
  rw [hsame]
  rfl

theorem keeps_construct (hs : Sound s) (hst : s.stage i = .writing t v)
    (hb : s.buckets (level i) = some b) :
    Sound (s.construct i b v) ∧ Own t (s.construct i b v) (.publish i v b) ∧
      ∀ t', t' ≠ t → Rely t' s (s.construct i b v) := by
  have hsound : Sound (s.construct i b v) := by
    rw [construct_eq]
    refine hs.setCell hb (by rw [hst]; exact nofun) (by rw [hst]; exact nofun)
      (by rw [hst]; exact nofun) (by rw [hst]; exact nofun) id ?_
    rw [hst]
    exact ⟨_, rfl, hs.writing_state hst hb⟩
  refine ⟨hsound, ⟨hst, hb, _, cellAt_setCell_self hb, rfl⟩, fun t' ht => ?_⟩
  rw [construct_eq]
  exact rely_setCell hs hb (by rw [hst]; rfl) id ht

theorem keeps_publish (hs : Sound s) (hst : s.stage i = .writing t v)
    (hb : s.buckets (level i) = some b)
    (hv : ∃ c, s.cellAt i = some c ∧ c.storage = some v) :
    Sound (s.publish t i b v) ∧ Own t (s.publish t i b v) (.check i v) ∧
      ∀ t', t' ≠ t → Rely t' s (s.publish t i b v) := by
  obtain ⟨c, hc, hstorage⟩ := hv
  rw [cellAt_some hb] at hc
  rw [← Option.some.inj hc] at hstorage
  have hfits : (Stage.ready t v).Fits (some { s.cells b (offset i) with state := .ready }) := by
    change some (⟨.ready, (s.cells b (offset i)).storage⟩ : Cell α) = _
    rw [hstorage]
  refine ⟨hs.setCell hb (by rw [hst]; exact nofun) (by rw [hst]; exact nofun) nofun nofun
    (fun _ => rfl) hfits, Function.update_self .., fun t' ht => ?_⟩
  exact rely_setCell hs hb (by rw [hst]; rfl) (fun _ => rfl) ht

theorem Sound.lt_of_ready (hs : Sound s) (hi : (s.stage i).isReady = true) : i < s.allocIdx := by
  by_contra hcontra
  rw [(hs.free i).mpr (Nat.le_of_not_lt hcontra)] at hi
  exact Bool.noConfusion hi

theorem step_keeps (hstep : Step t s pc s' pc') (hs : Sound s) (ho : Own t s pc) :
    Sound s' ∧ Own t s' pc' ∧ ∀ t', t' ≠ t → Rely t' s s' := by
  cases hstep with
  | begin v room =>
      exact ⟨hs.take room, Function.update_self .., fun _ _ => rely_take hs⟩
  | ensureFound i v b found => exact keeps_quiet _ hs ⟨ho, b, found⟩
  | ensureNone i v _ => exact keeps_quiet (.allocate i v) hs ho
  | allocate i v fits =>
      exact ⟨hs.allocate _, ⟨ho, spare_allocate hs _⟩, fun _ _ => rely_allocate hs _⟩
  | install i v cand none =>
      exact ⟨hs.install ho.2 none, ⟨ho.1, cand, Function.update_self ..⟩,
        fun _ ht => rely_install ho.2 none ht⟩
  | installLost i v cand b found => exact keeps_quiet _ hs ⟨ho.1, b, found⟩
  | loadBucket i v b found => exact keeps_quiet (.loadState i v b) hs ⟨ho.1, found⟩
  | loadEmpty i v b _ => exact keeps_quiet (.claim i v b) hs ho
  | loadBusy i v b _ => exact keeps_quiet (.loadState i v b) hs ho
  | claim i v b _ => exact keeps_claim hs ho.1 ho.2
  | claimLost i v b busy =>
      rw [hs.waiting_raw ho.1 ho.2] at busy
      exact absurd rfl busy
  | waitBusy i v b _ => exact ho.elim
  | waitDone i v b _ => exact ho.elim
  | construct i v b => exact keeps_construct hs ho.1 ho.2
  | publish i v b => exact keeps_publish hs ho.1 ho.2.1 ho.2.2
  | checkOther i v _ => exact keeps_finish hs ho
  | checkOwn i v _ => exact keeps_quiet (.loadCur i v) hs ho
  | loadCur i v => exact keeps_quiet _ hs ⟨ho, Nat.le_refl _⟩
  | curNone i v cur _ => exact keeps_finish hs ho.1
  | curBucket i v cur b found => exact keeps_quiet _ hs ⟨ho.1, ho.2, found⟩
  | curStop i v cur b _ => exact keeps_finish hs ho.1
  | curReady i v cur b _ =>
      refine keeps_quiet (.scanBucket i v cur cur) hs ⟨ho.1, ho.2.1, Nat.le_refl _, ?_, ?_⟩
      · exact Nat.le_trans ho.2.1 hs.published_le
      · exact fun j hge hlt => absurd hlt (Nat.not_lt_of_le hge)
  | scanNone i v cur scan _ => exact keeps_quiet (.advance i v cur scan) hs ho
  | scanBucket i v cur scan b found => exact keeps_quiet _ hs ⟨ho.1, ho.2, found⟩
  | scanStop i v cur scan b _ =>
      exact keeps_quiet (.advance i v cur scan) hs ⟨ho.1, ho.2.1⟩
  | scanReady i v cur scan b ready =>
      obtain ⟨hst, hscan, hb⟩ := ho
      have hword : scan + 1 < 2 ^ 64 :=
        Nat.lt_of_le_of_lt (Nat.succ_le_succ hscan.scan_le) hs.bound
      have hnext := hs.ready_of_cell hword hb ready
      refine keeps_quiet (.scanBucket i v cur (scan + 1)) hs
        ⟨hst, hscan.cur_le, Nat.le_succ_of_le hscan.le_scan, hs.lt_of_ready hnext, ?_⟩
      intro j hge hlt
      rcases Nat.lt_or_eq_of_le (Nat.le_of_lt_succ hlt) with hlt' | rfl
      · exact hscan.ready j hge hlt'
      · exact hnext
  | advance i v cur scan same =>
      have hscan := ho.2
      rw [← same] at hscan
      exact ⟨hs.advance hscan, ho.1, fun _ _ => rely_advance hscan⟩
  | advanceFail i v cur scan => exact keeps_quiet (.loadCur i v) hs ho.1

theorem sound_new : Sound (State.new : State α) where
  bound := (by decide : 0 + 1 < 2 ^ 64)
  installed := nofun
  single := nofun
  fits := fun _ _ _ hx => nomatch hx
  free := fun i => ⟨fun _ => Nat.zero_le i, fun _ => rfl⟩
  ready := fun i hi => absurd hi (Nat.not_lt_zero i)
  returned := fun _ _ => ⟨nofun, nofun⟩
  nodup := List.nodup_nil

def published : RelyGuarantee (Step : Nat → State α → Pc α → State α → Pc α → Prop) .new .idle where
  shared := Sound
  own := Own
  rely := Rely
  start_shared := sound_new
  start_own := fun _ => trivial
  keeps := step_keeps
  stable := fun _ ho hr => ho.rely hr

theorem runs_sound (h : Runs w) : Sound w.shared ∧ ∀ t, Own t w.shared (w.own t) :=
  published.holds h

/-! ### The call that has an index -/

def Pc.index : Pc α → Option Nat
  | .idle => none
  | .ensure i _ | .allocate i _ | .install i _ _ | .loadBucket i _ | .loadState i _ _
  | .claim i _ _ | .waitReady i _ _ | .construct i _ _ | .publish i _ _ | .check i _
  | .loadCur i _ | .curBucket i _ _ | .curState i _ _ _ | .scanBucket i _ _ _
  | .scanState i _ _ _ _ | .advance i _ _ _ => some i

def Held (w : World Nat (State α) (Pc α)) : Prop :=
  ∀ t i, (w.shared.stage i).holder = some t → (w.own t).index = some i

def Handled (t : Nat) (s s' : State α) (pc' : Pc α) : Prop :=
  ∀ j u, (s'.stage j).holder = some u →
    (u = t → pc'.index = some j) ∧ (u ≠ t → (s.stage j).holder = some u)

theorem handled_quiet (hheld : ∀ i, (s.stage i).holder = some t → pc.index = some i)
    (hindex : pc'.index = pc.index) : Handled t s s pc' := by
  intro j u hj
  refine ⟨fun hu => ?_, fun _ => hj⟩
  rw [hindex]
  exact hheld j (hu ▸ hj)

theorem handled_set {st : Stage α}
    (hheld : ∀ i, (s.stage i).holder = some t → pc.index = some i)
    (hstage : s'.stage = Function.update s.stage i st) (hindex : ∀ j, pc.index = some j → j = i)
    (hnew : ∀ u, st.holder = some u → u = t ∧ pc'.index = some i) : Handled t s s' pc' := by
  intro j u hj
  rw [hstage] at hj
  by_cases hji : j = i
  · subst hji
    rw [Function.update_self] at hj
    obtain ⟨hu, hpc⟩ := hnew u hj
    exact ⟨fun _ => hpc, fun hne => absurd hu hne⟩
  · rw [Function.update_of_ne hji] at hj
    exact ⟨fun hu => absurd (hindex j (hheld j (hu ▸ hj))) hji, fun _ => hj⟩

theorem handled_finish {i : Nat} {v : α}
    (hheld : ∀ i, (s.stage i).holder = some t → pc.index = some i) (hpc : pc.index = some i) :
    Handled t s (s.finish i v) .idle :=
  handled_set hheld rfl (fun _ hj => Option.some.inj (hj.symm.trans hpc)) nofun

theorem step_handled (hstep : Step t s pc s' pc')
    (hheld : ∀ i, (s.stage i).holder = some t → pc.index = some i) : Handled t s s' pc' := by
  cases hstep with
  | begin v _ =>
      refine handled_set hheld rfl nofun fun u hu => ?_
      exact ⟨(Option.some.inj hu).symm, rfl⟩
  | claim i v b _ =>
      refine handled_set hheld rfl (fun _ hj => (Option.some.inj hj).symm) fun u hu => ?_
      exact ⟨(Option.some.inj hu).symm, rfl⟩
  | publish i v b =>
      refine handled_set hheld rfl (fun _ hj => (Option.some.inj hj).symm) fun u hu => ?_
      exact ⟨(Option.some.inj hu).symm, rfl⟩
  | checkOther i v _ => exact handled_finish hheld rfl
  | curNone i v cur _ => exact handled_finish hheld rfl
  | curStop i v cur b _ => exact handled_finish hheld rfl
  | ensureFound | ensureNone | allocate | install | installLost | loadBucket | loadEmpty
  | loadBusy | claimLost | waitBusy | waitDone | construct | checkOwn | loadCur | curBucket
  | curReady | scanNone | scanBucket | scanStop | scanReady | advance | advanceFail =>
      exact handled_quiet hheld rfl

theorem runs_held (h : Runs w) : Held w := by
  induction h with
  | start => exact fun _ _ h => nomatch h
  | @step w t s l hw hstep ih =>
      intro u j hj
      have hhandled := step_handled hstep (ih t) j u hj
      change (Function.update w.own t l u).index = some j
      by_cases hu : u = t
      · rw [hu, Function.update_self]
        exact hhandled.1 hu
      · rw [Function.update_of_ne hu]
        exact ih u j (hhandled.2 hu)

/-! ### The thread that advances the count -/

def Pc.advances (published : Nat) : Pc α → Prop
  | .check i _ => i = published
  | .loadCur .. | .curBucket .. | .curState .. | .scanBucket .. | .scanState .. | .advance .. =>
      True
  | _ => False

def HandedOver (w : World Nat (State α) (Pc α)) : Prop :=
  (w.shared.stage w.shared.published).isReady = true →
    ∃ t, (w.own t).advances w.shared.published

/-- A thread that stops at a cell has seen it at the count, and not ready. -/
theorem Sound.stopped (hs : Sound s) {cur : Nat} (hle : cur ≤ s.published)
    (hstop : ∀ b, s.buckets (level cur) = some b → (s.cells b (offset cur)).state ≠ .ready) :
    (s.stage s.published).isReady = false := by
  have hcur : (s.stage cur).isReady = false := by
    by_contra hready
    obtain ⟨b, v, hb, hcell⟩ := hs.cell_of_ready (eq_true_of_ne_false hready)
    exact hstop b hb (by rw [hcell])
  have heq : cur = s.published := by
    by_contra hne
    rw [hs.ready cur (Nat.lt_of_le_of_ne hle hne)] at hcur
    exact Bool.noConfusion hcur
  rw [← heq]
  exact hcur

/-- What a step does about a ready cell at the count: its thread is or stays on the way, or the
step leaves that to the others. -/
def Hands (s : State α) (pc : Pc α) (s' : State α) (pc' : Pc α) : Prop :=
  (s'.stage s'.published).isReady = true → pc'.advances s'.published ∨
    s'.published = s.published ∧ (s.stage s.published).isReady = true ∧ ¬ pc.advances s.published

theorem hands_quiet (hpc : pc.advances s.published → pc'.advances s.published) :
    Hands s pc s pc' := by
  intro hready
  by_cases hon : pc'.advances s.published
  · exact .inl hon
  · exact .inr ⟨rfl, hready, fun h => hon (hpc h)⟩

theorem finish_ready (hst : s.stage i = .ready t v) (j : Nat) :
    ((s.finish i v).stage j).isReady = (s.stage j).isReady := by
  change (Function.update s.stage i (.returned v) j).isReady = _
  by_cases hji : j = i
  · rw [hji, Function.update_self, hst]
    rfl
  · rw [Function.update_of_ne hji]

theorem hands_stop (hst : s.stage i = .ready t v)
    (hstop : (s.stage s.published).isReady = false) : Hands s pc (s.finish i v) .idle := by
  intro hready
  change ((s.finish i v).stage s.published).isReady = true at hready
  rw [finish_ready hst, hstop] at hready
  exact Bool.noConfusion hready

theorem step_hands (hstep : Step t s pc s' pc') (hs : Sound s) (ho : Own t s pc) :
    Hands s pc s' pc' := by
  cases hstep with
  | begin v _ =>
      intro hready
      refine .inr ⟨rfl, ?_, id⟩
      change (Function.update s.stage s.allocIdx (.waiting t v) s.published).isReady = true at hready
      by_cases heq : s.published = s.allocIdx
      · rw [heq, Function.update_self] at hready
        exact Bool.noConfusion hready
      · rw [Function.update_of_ne heq] at hready
        exact hready
  | claim i v b _ =>
      intro hready
      refine .inr ⟨rfl, ?_, id⟩
      change (Function.update s.stage i (.writing t v) s.published).isReady = true at hready
      by_cases heq : s.published = i
      · rw [heq, Function.update_self] at hready
        exact Bool.noConfusion hready
      · rw [Function.update_of_ne heq] at hready
        exact hready
  | publish i v b =>
      intro hready
      change (Function.update s.stage i (.ready t v) s.published).isReady = true at hready
      by_cases heq : s.published = i
      · exact .inl heq.symm
      · rw [Function.update_of_ne heq] at hready
        exact .inr ⟨rfl, hready, id⟩
  | checkOther i v other =>
      intro hready
      change ((s.finish i v).stage s.published).isReady = true at hready
      rw [finish_ready ho] at hready
      exact .inr ⟨rfl, hready, other⟩
  | curNone i v cur hnone =>
      refine hands_stop ho.1 (hs.stopped ho.2 fun b hb => ?_)
      rw [hnone] at hb
      exact nomatch hb
  | curStop i v cur b stop =>
      refine hands_stop ho.1 (hs.stopped ho.2.1 fun b' hb' => ?_)
      have hbb : b = b' := Option.some.inj (ho.2.2.symm.trans hb')
      rw [← hbb]
      exact stop
  | waitDone i v b _ => exact ho.elim
  | allocate i v _ => exact fun hready => .inr ⟨rfl, hready, id⟩
  | install i v cand _ => exact fun hready => .inr ⟨rfl, hready, id⟩
  | construct i v b => exact fun hready => .inr ⟨rfl, hready, id⟩
  | advance i v cur scan _ => exact fun _ => .inl trivial
  | ensureFound | ensureNone | installLost | loadBucket | loadEmpty | loadBusy | claimLost
  | waitBusy => exact hands_quiet id
  | checkOwn | loadCur | curBucket | curReady | scanNone | scanBucket | scanStop | scanReady
  | advanceFail => exact hands_quiet fun _ => trivial

theorem runs_handedOver (h : Runs w) : HandedOver w := by
  induction h with
  | start => exact fun h => Bool.noConfusion h
  | @step w t s l hw hstep ih =>
      intro hready
      obtain ⟨hs, ho⟩ := runs_sound hw
      rcases step_hands hstep hs (ho t) hready with hon | ⟨hsame, hbefore, hoff⟩
      · refine ⟨t, ?_⟩
        change (Function.update w.own t l t).advances s.published
        rw [Function.update_self]
        exact hon
      · obtain ⟨u, hu⟩ := ih hbefore
        have hne : u ≠ t := fun heq => hoff (heq ▸ hu)
        refine ⟨u, ?_⟩
        change (Function.update w.own t l u).advances s.published
        rw [Function.update_of_ne hne, hsame]
        exact hu

/-! ### The vector -/

theorem step_published (hstep : Step t s pc s' pc') (hs : Sound s) (ho : Own t s pc) :
    s.published ≤ s'.published :=
  ((step_keeps hstep hs ho).2.2 (t + 1) (Nat.succ_ne_self t)).published

/-- Without a call in progress the indices that were taken are returned. -/
theorem returned_of_idle (h : Runs w) (hidle : ∀ t, w.own t = .idle) (hi : i < w.shared.allocIdx) :
    ∃ v, w.shared.stage i = .returned v := by
  obtain ⟨hs, -⟩ := runs_sound h
  have hholder : ∀ t, (w.shared.stage i).holder ≠ some t := by
    intro t ht
    have hindex := runs_held h t i ht
    rw [hidle t] at hindex
    exact nomatch hindex
  match hst : w.shared.stage i with
  | .free => exact absurd ((hs.free i).mp hst) (Nat.not_le_of_lt hi)
  | .waiting t _ | .writing t _ | .ready t _ =>
      exact absurd (by rw [hst]; rfl) (hholder t)
  | .returned v => exact ⟨v, rfl⟩

theorem published_of_idle (h : Runs w) (hidle : ∀ t, w.own t = .idle) :
    w.shared.published = w.shared.allocIdx := by
  obtain ⟨hs, -⟩ := runs_sound h
  refine Nat.le_antisymm hs.published_le (Nat.le_of_not_lt fun hlt => ?_)
  obtain ⟨v, hst⟩ := returned_of_idle h hidle hlt
  obtain ⟨t, ht⟩ := runs_handedOver h (by rw [hst]; rfl)
  rw [hidle t] at ht
  exact ht

theorem length_of_idle (h : Runs w) (hidle : ∀ t, w.own t = .idle) :
    w.shared.returned.length = w.shared.allocIdx := by
  obtain ⟨hs, -⟩ := runs_sound h
  have hperm : (w.shared.returned.map Prod.fst).Perm (List.range w.shared.allocIdx) := by
    refine (List.perm_ext_iff_of_nodup hs.nodup List.nodup_range).mpr fun i => ?_
    rw [List.mem_range, List.mem_map]
    constructor
    · rintro ⟨⟨j, v⟩, hmem, rfl⟩
      refine hs.lt_of_ready ?_
      rw [(hs.returned j v).mp hmem]
      rfl
    · intro hi
      obtain ⟨v, hst⟩ := returned_of_idle h hidle hi
      exact ⟨(i, v), (hs.returned i v).mpr hst, rfl⟩
  have hlen := hperm.length_eq
  rw [List.length_map, List.length_range] at hlen
  exact hlen

theorem Sound.element (hs : Sound s) (hmem : (i, v) ∈ s.returned) :
    ∃ b, s.buckets (level i) = some b ∧ s.cells b (offset i) = ⟨.ready, some v⟩ := by
  have hst := (hs.returned i v).mp hmem
  have hfits := hs.fits i (hs.lt_word (by rw [hst]; exact nofun))
  rw [hst] at hfits
  exact Option.map_eq_some_iff.mp hfits

theorem Sound.cells_apart (hs : Sound s) {i j b b' : Nat} (hi : i < s.allocIdx)
    (hj : j < s.allocIdx) (hb : s.buckets (level i) = some b)
    (hb' : s.buckets (level j) = some b') :
    offset i < s.caps b ∧ ((b, offset i) = (b', offset j) → i = j) := by
  have hbound := hs.bound
  have hi' : i + 1 < 2 ^ 64 := by omega
  have hj' : j + 1 < 2 ^ 64 := by omega
  refine ⟨?_, fun heq => ?_⟩
  · rw [(hs.installed _ _ hb).2]
    exact offset_lt hi'
  · obtain ⟨hbb, hoff⟩ := Prod.mk.inj heq
    rw [← hbb] at hb'
    exact locate_inj hi' hj' (Prod.ext (hs.single _ _ _ hb hb') hoff)

/-- Whatever the threads that call `emplace_back` do: below the count every element is there,
the count does not go back, no index is returned twice, and with no call in progress the count is
that of the calls, with every element where its call said.  Every index has a cell of its own. -/
theorem emplaced_in_place (h : Runs w) :
    (∀ i < w.shared.size, ∃ b v, w.shared.buckets (level i) = some b ∧
      w.shared.cells b (offset i) = ⟨.ready, some v⟩) ∧
    (∀ t s pc, Step t w.shared (w.own t) s pc → w.shared.size ≤ s.size) ∧
    (w.shared.returned.map Prod.fst).Nodup ∧
    ((∀ t, w.own t = .idle) →
      w.shared.size = w.shared.returned.length ∧
      ∀ i v, (i, v) ∈ w.shared.returned → i < w.shared.size ∧
        ∃ b, w.shared.buckets (level i) = some b ∧
          w.shared.cells b (offset i) = ⟨.ready, some v⟩) ∧
    ∀ i j b b', i < w.shared.allocIdx → j < w.shared.allocIdx →
      w.shared.buckets (level i) = some b → w.shared.buckets (level j) = some b' →
      offset i < w.shared.caps b ∧ ((b, offset i) = (b', offset j) → i = j) := by
  obtain ⟨hs, ho⟩ := runs_sound h
  refine ⟨fun i hi => hs.cell_of_ready (hs.ready i hi), fun t s pc hstep => ?_, hs.nodup,
    fun hidle => ⟨?_, fun i v hmem => ⟨?_, hs.element hmem⟩⟩, fun _ _ _ _ hi hj hb hb' =>
    hs.cells_apart hi hj hb hb'⟩
  · exact step_published hstep hs (ho t)
  · exact (published_of_idle h hidle).trans (length_of_idle h hidle).symm
  · have hst := (hs.returned i v).mp hmem
    change i < w.shared.published
    rw [published_of_idle h hidle]
    exact hs.lt_of_ready (by rw [hst]; rfl)

/-- Three threads: two of them allocate one bucket, and the elements are ready in the reverse order
of their indices. -/
theorem outrun_in_place :
    ∃ s : State Nat, s.returned = [(0, 7), (1, 8), (2, 9)] ∧ s.fresh = 3 ∧
      s.size = s.returned.length ∧ ∀ i v, (i, v) ∈ s.returned → i < s.size ∧
        ∃ b, s.buckets (level i) = some b ∧ s.cells b (offset i) = ⟨.ready, some v⟩ := by
  have h₀ : Runs (⟨.new, fun _ => .idle⟩ : World Nat (State Nat) (Pc Nat)) := .start
  have h₁ := ((h₀.step (t := 0) (.begin 7 (by decide))).step (t := 1) (.begin 8 (by decide))).step
    (t := 2) (.begin 9 (by decide))
  have h₂ := ((h₁.step (t := 0) (.ensureNone 0 7 rfl)).step (t := 0)
    (.allocate 0 7 (by decide))).step (t := 0) (.install 0 7 0 rfl)
  -- two threads allocate the same bucket
  have h₃ := ((h₂.step (t := 1) (.ensureNone 1 8 rfl)).step (t := 1)
    (.allocate 1 8 (by decide))).step (t := 2) (.ensureNone 2 9 rfl)
  have h₄ := ((h₃.step (t := 2) (.allocate 2 9 (by decide))).step (t := 2)
    (.install 2 9 2 rfl)).step (t := 1) (.installLost 1 8 1 2 rfl)
  -- the last index is ready first, and the first one last
  have h₅ := ((((h₄.step (t := 2) (.loadBucket 2 9 2 rfl)).step (t := 2)
    (.loadEmpty 2 9 2 rfl)).step (t := 2) (.claim 2 9 2 rfl)).step (t := 2)
    (.construct 2 9 2)).step (t := 2) (.publish 2 9 2)
  have h₆ := h₅.step (t := 2) (.checkOther 2 9 (by decide))
  have h₇ := ((((h₆.step (t := 1) (.loadBucket 1 8 2 rfl)).step (t := 1)
    (.loadEmpty 1 8 2 rfl)).step (t := 1) (.claim 1 8 2 rfl)).step (t := 1)
    (.construct 1 8 2)).step (t := 1) (.publish 1 8 2)
  have h₈ := h₇.step (t := 1) (.checkOther 1 8 (by decide))
  have h₉ := ((((h₈.step (t := 0) (.loadBucket 0 7 0 rfl)).step (t := 0)
    (.loadEmpty 0 7 0 rfl)).step (t := 0) (.claim 0 7 0 rfl)).step (t := 0)
    (.construct 0 7 0)).step (t := 0) (.publish 0 7 0)
  -- it publishes all three
  have h₁₀ := (((h₉.step (t := 0) (.checkOwn 0 7 rfl)).step (t := 0) (.loadCur 0 7)).step (t := 0)
    (.curBucket 0 7 0 0 rfl)).step (t := 0) (.curReady 0 7 0 0 rfl)
  have h₁₁ := (h₁₀.step (t := 0) (.scanBucket 0 7 0 0 0 rfl)).step (t := 0)
    (.scanReady 0 7 0 0 0 rfl)
  have h₁₂ := (h₁₁.step (t := 0) (.scanBucket 0 7 0 1 2 rfl)).step (t := 0)
    (.scanReady 0 7 0 1 2 rfl)
  have h₁₃ := (h₁₂.step (t := 0) (.scanBucket 0 7 0 2 2 rfl)).step (t := 0)
    (.scanReady 0 7 0 2 2 rfl)
  have h₁₄ := ((h₁₃.step (t := 0) (.scanNone 0 7 0 3 rfl)).step (t := 0)
    (.advance 0 7 0 3 rfl)).step (t := 0) (.loadCur 0 7)
  have h₁₅ := h₁₄.step (t := 0) (.curNone 0 7 3 rfl)
  have hplaces := (emplaced_in_place h₁₅).2.2.2.1 (by rintro (_ | _ | _ | t) <;> rfl)
  exact ⟨_, rfl, rfl, hplaces⟩

end Uvent.LockFreeVector
