import Uvent.Reclaim.HazardCover

/-!
# Runs of a hazard domain

What `protect` returned from a slot is not deleted while the slot holds it, in every run in
which what `protect` loads is covered: for clients that retire an object only when no source
equals it, that is every run.
-/

namespace Uvent.Reclaim.Hazard

variable {s s' : State} {t r : Nat} {e : Event} {which : Which} {pc : Pc}

theorem Slots.store (h : Slots s) (a : Nat) (v : Option Nat) :
    Slots { s with src := Function.update s.src a v } := by
  refine h.same rfl (fun _ => .refl _) h.tidy fun b _ x hx => ?_
  cases b <;> exact hx

theorem Slots.retire (h : Slots s) (hrecords : Records s) (bound : (s.thread t).tls = some r)
    (p : Nat) : Slots ((s.retire r p).goto t .retireCount) := by
  refine h.rest rfl (sameSlots_update ?_) rfl rfl rfl fun t' ht which hz _ r' hr' => ?_
  · exact ⟨rfl, rfl, rfl⟩
  · have hne : r' ≠ r := by
      rintro rfl
      exact ht (hrecords.tls_unique hr' bound)
    intro x hx
    cases which with
    | own =>
        have hx' : x ∈ (Function.update s.record r _ r').kept ++
          (Function.update s.record r _ r').retired := hx
        rw [Function.update_of_ne hne] at hx'
        exact hx'
    | orphans => exact hx

theorem locks_of_reclaim {hz : List Nat} (h : pc.reclaim = some (.orphans, hz)) :
    pc.locks = true := by
  cases pc with
  | collect w _ _ _ | collectSlot w _ _ _ _ _ | sift w _ _ =>
      cases h
      rfl
  | _ => cases h

/-- The list of a record is put to the orphans, when nobody reclaims these. -/
theorem Slots.orphan (h : Slots s) (hrecords : Records s) (bound : (s.thread t).tls = some r)
    (unlocked : s.orphanMu = none) : Slots ((s.orphan r).goto t (.releaseSlots 0)) := by
  refine h.go rfl rfl (sameSlots_update ?_) rfl (fun r' hr' => ?_) nofun
    (fun t' ht which hz p hpc => ?_) nofun
  · exact ⟨rfl, rfl, rfl⟩
  · obtain ⟨hvictim, hreturned, -, -, -⟩ := h.tidy t r' hr'
    refine ⟨hvictim, hreturned, nofun, nofun, ?_⟩
    rintro i ⟨⟩ j hj
    exact absurd hj (Nat.not_lt_zero j)
  · cases which with
    | own =>
        refine listed_of_boxes ?_ fun r' hr' x hx => ?_
        · exact congrArg Thread.tls (Function.update_of_ne ht ..)
        · have hne : r' ≠ r := by
            rintro rfl
            exact ht (hrecords.tls_unique hr' bound)
          have hx' : x ∈ (Function.update s.record r _ r').kept ++
            (Function.update s.record r _ r').retired := hx
          rw [Function.update_of_ne hne] at hx'
          exact hx'
    | orphans =>
        have hlocked := hrecords.mutex t' (locks_of_reclaim hpc)
        rw [unlocked] at hlocked
        cases hlocked

theorem Slots.collectSlot (h : Slots s) {leaving : Bool} {hz rest : List Nat} {i : Nat}
    (pc : (s.thread t).pc = .collectSlot which leaving hz r i rest) :
    Slots (s.goto t (.collectSlot which leaving (((s.record r).hp i).toList ++ hz) r (i + 1) rest)) := by
  refine h.reclaim rfl rfl rfl (goto_boxes ..) rfl fun p r' j hj hhp _ hcovered w hz' hpc hlisted => ?_
  cases hpc
  rcases hcovered t which hz (by rw [pc]; rfl) hlisted with hin | hpending
  · exact .inl (List.mem_append_right _ hin)
  · rw [pc] at hpending
    rcases hpending with ⟨rfl, hle⟩ | hrest
    · rcases Nat.eq_or_lt_of_le hle with rfl | hlt
      · left
        rw [hhp]
        exact List.mem_append_left _ (List.mem_singleton_self p)
      · exact .inr (.inl ⟨rfl, hlt⟩)
    · exact .inr (.inr hrest)

/-! ### `protect` -/

theorem Slots.hit (h : Slots s) (hrecords : Records s) {a p gen i : Nat}
    (pc : (s.thread t).pc = .protectCheck a p gen i) (bound : (s.thread t).tls = some r)
    (more : i < kSlots) (hit : (s.record r).hp i = some p) :
    Slots ((s.returnSlot r i gen).goto t (.done (some p))) := by
  have htidy := h.tidy t r bound
  refine h.write hrecords rfl rfl rfl (write_boxes rfl rfl rfl rfl rfl) bound rfl
    ⟨htidy.victim, fun j g hg => ?_, nofun, nofun, nofun⟩ fun q j hj hq hused => ?_
  · dsimp only at hg
    by_cases hji : j = i
    · subst hji
      rw [Function.update_self] at hg
      cases hg
      exact ⟨more, p, hit, htidy.checking a p gen j pc j more hit⟩
    · rw [Function.update_of_ne hji] at hg
      exact htidy.returned j g hg
  · have hreturned := hused.resolve_right nofun
    dsimp only at hq hreturned
    by_cases hji : j = i
    · subst hji
      have hqp : q = p := Option.some.inj (hq.symm.trans hit)
      rw [hqp]
      exact h.covered p r j ⟨hj, hit, .inr ⟨t, a, gen, j, bound, pc⟩⟩
    · rw [Function.update_of_ne hji] at hreturned
      exact h.covered q r j ⟨hj, hq, .inl hreturned⟩

theorem Slots.miss (h : Slots s) {a p gen i : Nat}
    (pc : (s.thread t).pc = .protectCheck a p gen i) :
    Slots (s.goto t (.protectCheck a p gen (i + 1))) := by
  refine h.go rfl rfl (fun _ => .refl _) rfl (fun r hr => ?_) ?_
    (fun _ _ _ _ _ _ => listed_same rfl rfl (goto_boxes ..)) nofun
  · have htidy := h.tidy t r hr
    refine ⟨htidy.victim, htidy.returned, nofun, ?_, nofun⟩
    rintro a' p' g j ⟨⟩
    exact htidy.checking a p gen i pc
  · rintro a' p' g j ⟨⟩ r k hr hk hhp
    exact h.covered p r k ⟨hk, hhp, .inr ⟨t, a, gen, i, hr, pc⟩⟩

theorem Slots.publish (h : Slots s) (hrecords : Records s) {a p : Nat}
    (bound : (s.thread t).tls = some r) :
    Slots ((s.publish r p).goto t (.protectValidate a p (s.record r).victim)) := by
  have htidy := h.tidy t r bound
  refine h.write hrecords rfl rfl rfl (write_boxes rfl rfl rfl rfl rfl) bound rfl
    ⟨Nat.mod_lt _ (Nat.succ_pos 7), fun j g hg => ?_, ?_, nofun, nofun⟩ fun q j hj hq hused => ?_
  · dsimp only at hg ⊢
    by_cases hj : j = (s.record r).victim
    · rw [hj, Function.update_self] at hg
      cases hg
    · rw [Function.update_of_ne hj] at hg ⊢
      exact htidy.returned j g hg
  · rintro a' p' i ⟨⟩
    exact ⟨htidy.victim, Function.update_self ..⟩
  · have hreturned := hused.resolve_right nofun
    dsimp only at hq hreturned
    by_cases hjv : j = (s.record r).victim
    · rw [hjv, Function.update_self] at hreturned
      exact absurd rfl hreturned
    · rw [Function.update_of_ne hjv] at hq hreturned
      exact h.covered q r j ⟨hj, hq, .inl hreturned⟩

theorem Slots.validate (h : Slots s) (hrecords : Records s) {a p i : Nat}
    (hok : Sound s t (.load a)) (pc : (s.thread t).pc = .protectValidate a p i)
    (bound : (s.thread t).tls = some r) (again : s.src a = some p) :
    Slots ((s.returnSlot r i (s.gen p)).goto t (.done (some p))) := by
  have htidy := h.tidy t r bound
  obtain ⟨hi, hhp⟩ := htidy.validating a p i pc
  refine h.write hrecords rfl rfl rfl (write_boxes rfl rfl rfl rfl rfl) bound rfl
    ⟨htidy.victim, fun j g hg => ?_, nofun, nofun, nofun⟩ fun q j hj hq hused => ?_
  · dsimp only at hg
    by_cases hji : j = i
    · rw [hji, Function.update_self] at hg
      cases hg
      rw [hji]
      exact ⟨hi, p, hhp, rfl⟩
    · rw [Function.update_of_ne hji] at hg
      exact htidy.returned j g hg
  · have hreturned := hused.resolve_right nofun
    dsimp only at hq hreturned
    by_cases hji : j = i
    · have hqp : q = p := by
        rw [hji] at hq
        exact Option.some.inj (hq.symm.trans hhp)
      rw [hqp, hji]
      exact hok p r i again bound hi hhp
    · rw [Function.update_of_ne hji] at hreturned
      exact h.covered q r j ⟨hj, hq, .inl hreturned⟩

theorem Slots.clear (h : Slots s) (hrecords : Records s) {i : Nat}
    (pc : (s.thread t).pc = .releaseSlots i) (bound : (s.thread t).tls = some r) :
    Slots ((s.setSlot r i none).goto t (.releaseSlots (i + 1))) := by
  have htidy := h.tidy t r bound
  refine h.write hrecords rfl rfl rfl (write_boxes rfl rfl rfl rfl rfl) bound rfl
    ⟨htidy.victim, fun j g hg => ?_, nofun, nofun, ?_⟩ fun q j hj hq hused => ?_
  · dsimp only at hg ⊢
    by_cases hji : j = i
    · rw [hji, Function.update_self] at hg
      cases hg
    · rw [Function.update_of_ne hji] at hg ⊢
      exact htidy.returned j g hg
  · rintro k ⟨⟩ j hj
    dsimp only
    by_cases hji : j = i
    · rw [hji, Function.update_self]
    · rw [Function.update_of_ne hji]
      exact htidy.releasing i pc j (by omega)
  · have hreturned := hused.resolve_right nofun
    dsimp only at hq hreturned
    by_cases hji : j = i
    · rw [hji, Function.update_self] at hreturned
      exact absurd rfl hreturned
    · rw [Function.update_of_ne hji] at hq hreturned
      exact h.covered q r j ⟨hj, hq, .inl hreturned⟩

/-! ### Every step -/

theorem Slots.quiet (h : Slots s) {pc : Pc} (hslotless : pc.slotless = true)
    (hreclaim : pc.reclaim = none) : Slots (s.goto t pc) :=
  h.rest rfl (fun _ => .refl _) rfl hslotless hreclaim fun _ _ _ _ _ _ _ _ hx =>
    goto_boxes s _ _ ▸ hx

theorem Slots.acquireTake (h : Slots s) (hrecords : Records s) {rest : List Nat}
    (pc : (s.thread t).pc = .acquireTry r rest) (free : (s.record r).active = false) :
    Slots ((s.setRecord r { s.record r with active := true }).setRec t .idle (some r)) := by
  refine h.bind rfl (sameSlots_update ⟨rfl, rfl, rfl⟩) rfl (write_boxes rfl rfl rfl rfl rfl)
    (fun t' hr => ?_) ((hrecords.placed t).acquiring (by rw [pc]; rfl)) rfl rfl
  have hactive := (hrecords.bound hr).2
  rw [free] at hactive
  cases hactive

theorem Slots.acquireNew (h : Slots s) (hrecords : Records s) (hbooks : Books s) :
    Slots ({ s.setRecord s.records { Record.new with active := true } with
      records := s.records + 1 }.goto t (.acquirePush s.records s.head)) := by
  have hnew : s.record s.records = .new := hbooks.unborn _ (Nat.le_refl _)
  refine h.rest rfl (sameSlots_update ?_) rfl rfl rfl fun t' _ which _ _ r hr x hx => ?_
  · rw [hnew]
    exact ⟨rfl, rfl, rfl⟩
  · have hne : r ≠ s.records :=
      Nat.ne_of_lt (hrecords.known r (hrecords.bound hr).2)
    cases which with
    | own =>
        have hx' : x ∈ (Function.update s.record s.records { Record.new with active := true }
          r).kept ++ (Function.update s.record s.records { Record.new with active := true }
          r).retired := hx
        rw [Function.update_of_ne hne] at hx'
        exact hx'
    | orphans => exact hx

theorem Slots.acquirePush (h : Slots s) (hrecords : Records s)
    (pc : (s.thread t).pc = .acquirePush r s.head) :
    Slots ({ s with head := r :: s.head }.setRec t .acquireCount (some r)) := by
  have hnone := (hrecords.placed t).acquiring (by rw [pc]; rfl)
  have hheld : (s.thread t).holds = some r := by
    unfold Thread.holds
    rw [pc]
  refine h.bind rfl (fun _ => .refl _) rfl (by funext b; cases b <;> rfl) (fun t' hr => ?_)
    hnone rfl rfl
  have ht := hrecords.unique t' t r ((hrecords.placed t').holds_of_tls hr) hheld
  rw [ht, hnone] at hr
  cases hr

/-- A reclaim goes on to collect, and what it has read by then cannot have the object. -/
theorem Slots.collects (h : Slots s) {pc' : Pc} {hz : List Nat}
    (hold : (s.thread t).pc.reclaim = some (which, hz)) (hslotless : pc'.slotless = true)
    (hnew : pc'.reclaim = some (which, hz))
    (hpending : ∀ r j, j < kSlots → (∃ t', (s.thread t').tls = some r) →
      (s.thread t).pc.pending r j → pc'.pending r j) : Slots (s.goto t pc') := by
  refine h.reclaim rfl rfl rfl (goto_boxes ..) hslotless ?_
  intro p r j hj _ hholder hcovered w hz' hreclaim hlisted
  obtain ⟨rfl, rfl⟩ := Prod.mk.inj (Option.some.inj (hnew.symm.trans hreclaim))
  exact (hcovered t which hz hold hlisted).imp_right (hpending r j hj hholder)

theorem Slots.collect (h : Slots s) (hrecords : Records s) {leaving : Bool} {hz rest : List Nat}
    (pc : (s.thread t).pc = .collect which leaving hz (r :: rest)) :
    Slots (s.goto t (if (s.record r).active then .collectSlot which leaving hz r 0 rest
      else .collect which leaving hz rest)) := by
  have hold : (s.thread t).pc.reclaim = some (which, hz) := by rw [pc]; rfl
  split
  · refine h.collects hold rfl rfl fun r' j _ _ hpending => ?_
    rw [pc] at hpending
    rcases List.mem_cons.mp hpending with rfl | hin
    · exact .inl ⟨rfl, Nat.zero_le j⟩
    · exact .inr hin
  · rename_i hinactive
    refine h.collects hold rfl rfl fun r' j _ hholder hpending => ?_
    obtain ⟨t', hr⟩ := hholder
    rw [pc] at hpending
    rcases List.mem_cons.mp hpending with rfl | hin
    · exact absurd (hrecords.bound hr).2 hinactive
    · exact hin

theorem Slots.collectNext (h : Slots s) {leaving : Bool} {hz rest : List Nat}
    (pc : (s.thread t).pc = .collectSlot which leaving hz r kSlots rest) :
    Slots (s.goto t (.collect which leaving hz rest)) := by
  refine h.collects (by rw [pc]; rfl) rfl rfl fun r' j hj _ hpending => ?_
  rw [pc] at hpending
  rcases hpending with ⟨-, hle⟩ | hin
  · exact absurd hj (Nat.not_lt_of_le hle)
  · exact hin

theorem Slots.collectEnd (h : Slots s) {leaving : Bool} {hz : List Nat}
    (pc : (s.thread t).pc = .collect which leaving hz []) :
    Slots (s.goto t (.sift which leaving hz)) := by
  refine h.collects (by rw [pc]; rfl) rfl rfl fun r' j _ _ hpending => ?_
  rw [pc] at hpending
  exact absurd hpending List.not_mem_nil

theorem Slots.siftEnd (h : Slots s) {leaving : Bool} {kept : List Retired}
    (finished : s.list r which = (kept, [])) :
    Slots ((s.setList r [] kept which).goto t (afterReclaim leaving which)) := by
  have hboxes : ∀ b x, x ∈ (s.setList r [] kept which).boxes b → x ∈ s.boxes b :=
    setList_shrinks (by rw [finished]; exact fun x hx => (List.append_nil kept).symm ▸ hx)
  have hslotless : (afterReclaim leaving which).slotless = true := by cases which <;> rfl
  have hreclaim : (afterReclaim leaving which).reclaim = none := by cases which <;> rfl
  have hthread : ((s.setList r [] kept which).goto t (afterReclaim leaving which)).thread =
      Function.update s.thread t { s.thread t with pc := afterReclaim leaving which } := by
    cases which <;> rfl
  have hgen : (s.setList r [] kept which).gen = s.gen := by cases which <;> rfl
  refine h.rest hthread (setList_slots s r [] kept which) hgen hslotless hreclaim ?_
  intro t' _ w _ _ r' _ x hx
  rw [goto_boxes] at hx
  exact hboxes _ x hx

theorem Slots.releaseNone (h : Slots s) : Slots (s.goto t (.releaseSlots 0)) := by
  refine h.go rfl rfl (fun _ => .refl _) rfl (fun r' hr' => ?_) nofun
    (fun _ _ _ _ _ _ => listed_same rfl rfl (goto_boxes ..)) nofun
  obtain ⟨hvictim, hreturned, -, -, -⟩ := h.tidy t r' hr'
  refine ⟨hvictim, hreturned, nofun, nofun, ?_⟩
  rintro i ⟨⟩ j hj
  exact absurd hj (Nat.not_lt_zero j)

theorem step_slots (h : Slots s) (hrecords : Records s) (hbooks : Books s) (hok : Sound s t e)
    (hstep : Step s t e s') : Slots s' := by
  cases hstep with
  | store a v => exact h.store a v
  | acquire pc unbound | acquireTaken r rest pc used | acquireRetry r l pc | protect r a pc bound
  | protectFull a p gen pc | protectReturn result pc => exact h.quiet rfl rfl
  | acquireLook r rest pc => exact h.quiet (by split <;> rfl) (by split <;> rfl)
  | tryLockFail leaving pc => exact h.quiet (by cases leaving <;> rfl) (by cases leaving <;> rfl)
  | acquireTake r rest pc free => exact h.acquireTake hrecords pc free
  | acquireNew pc => exact h.acquireNew hrecords hbooks
  | acquirePush r pc => exact h.acquirePush hrecords pc
  | acquireCount pc =>
      refine h.rest rfl (fun _ => .refl _) rfl rfl rfl fun _ _ which _ _ _ _ x hx => ?_
      cases which <;> exact hx
  | protectLoad a pc => exact h.load hok
  | protectHit r a p gen i pc bound more hit => exact h.hit hrecords pc bound more hit
  | protectMiss r a p gen i pc bound more miss => exact h.miss pc
  | protectPublish r a p pc bound => exact h.publish hrecords bound
  | protectValidate r a p i pc bound again => exact h.validate hrecords hok pc bound again
  | protectAgain a p i pc changed => exact h.load hok
  | retire r p pc bound once => exact h.retire hrecords bound p
  | retireCount r pc bound =>
      split
      · exact h.collect_start hrecords rfl rfl rfl (goto_boxes ..)
      · exact h.quiet rfl rfl
  | scan r pc bound | release r pc bound =>
      exact h.collect_start hrecords rfl rfl rfl (goto_boxes ..)
  | collect r which leaving hz rest pc => exact h.collect hrecords pc
  | collectSlot r i which leaving hz rest pc more => exact h.collectSlot pc
  | collectNext r which leaving hz rest pc => exact h.collectNext pc
  | collectEnd which leaving hz pc => exact h.collectEnd pc
  | siftKeep r which leaving hz x kept rest pc bound next hazard => exact h.keep next
  | siftDelete r which leaving hz x kept rest pc bound next free => exact h.delete pc bound next free
  | siftEnd r which leaving hz kept pc bound finished => exact h.siftEnd finished
  | tryLock leaving pc unlocked =>
      split
      · refine h.rest rfl (fun _ => .refl _) rfl rfl rfl fun _ _ which _ _ _ _ x hx => ?_
        cases which <;> exact hx
      · exact h.collect_start hrecords rfl rfl rfl (by funext b; cases b <;> rfl)
  | unlock leaving pc =>
      refine h.rest rfl (fun _ => .refl _) rfl (by cases leaving <;> rfl)
        (by cases leaving <;> rfl) fun _ _ which _ _ _ _ x hx => ?_
      cases which <;> exact hx
  | releaseNone r pc bound empty => exact h.releaseNone
  | releaseOrphans r pc bound left unlocked => exact h.orphan hrecords bound unlocked
  | releaseSlot r i pc bound more => exact h.clear hrecords pc bound
  | releaseRecord r pc bound => exact h.release pc bound

theorem slots_of_runs (h : Runs Sound s) : Slots s :=
  h.holds (fun hs => hs ▸ slots_new) fun hs ih hstep meets =>
    step_slots ih (records_of_runs hs) (books_of_runs hs) meets hstep

/-- In a run in which what `protect` loads is covered, no object is deleted that a slot was
returned for and holds. -/
theorem Slots.guarded (h : Slots s) (hbooks : Books s) : Protected s := by
  refine ⟨fun r i p g hhp hreturned hdeleted => ?_, hbooks.custody.nodup .deleted⟩
  have hcurrent : s.gen p = g := by
    by_cases hbound : ∃ t, (s.thread t).tls = some r
    · obtain ⟨t, ht⟩ := hbound
      obtain ⟨-, q, hq, hgen⟩ := (h.tidy t r ht).returned i g hreturned
      rw [hhp] at hq
      cases hq
      exact hgen
    · have hnone := (h.unused r fun t ht => hbound ⟨t, ht⟩).2 i
      rw [hreturned] at hnone
      cases hnone
  have hlt : g < s.gen p := hbooks.past ⟨p, g⟩ hdeleted
  exact absurd hcurrent (Nat.ne_of_gt hlt)

/-! ### Clients that unlink first -/

def Unlinked (s : State) : Prop := ∀ a p, s.src a = some p → s.gone p = false

theorem Unlinked.pass (h : Unlinked s) (hsrc : s'.src = s.src)
    (hgone : ∀ p, s'.gone p = true → s.gone p = true) : Unlinked s' := by
  intro a p hp
  rw [hsrc] at hp
  cases hold : s'.gone p with
  | false => rfl
  | true =>
      have hgone := hgone p hold
      rw [h a p hp] at hgone
      cases hgone

theorem delete_gone (s : State) (x : Retired) (p : Nat) (h : (s.delete x).gone p = true) :
    s.gone p = true := by
  have h' : Function.update s.gone x.p false p = true := h
  by_cases hp : p = x.p
  · rw [hp, Function.update_self] at h'
    cases h'
  · rwa [Function.update_of_ne hp] at h'

theorem step_unlinked (h : Unlinked s) (hok : Disciplined s t e) (hstep : Step s t e s') :
    Unlinked s' := by
  cases hstep with
  | store a v =>
      intro a' p hp
      have hp' : Function.update s.src a v a' = some p := hp
      by_cases ha : a' = a
      · rw [ha, Function.update_self] at hp'
        exact hok p hp'
      · rw [Function.update_of_ne ha] at hp'
        exact h a' p hp'
  | retire r p pc bound once =>
      intro a q hq
      have hne : q ≠ p := fun heq => hok a (heq ▸ hq)
      show Function.update s.gone p true q = false
      rw [Function.update_of_ne hne]
      exact h a q hq
  | siftDelete r which leaving hz x kept rest pc bound next free =>
      have hrest : (s.setList r kept rest which).src = s.src ∧
          (s.setList r kept rest which).gone = s.gone := by cases which <;> exact ⟨rfl, rfl⟩
      refine h.pass hrest.1 fun p hp => ?_
      have hgone := delete_gone _ x p hp
      rwa [hrest.2] at hgone
  | siftKeep r which leaving hz x kept rest pc bound next hazard
  | siftEnd r which leaving hz kept pc bound finished =>
      cases which <;> exact h.pass rfl fun _ hp => hp
  | _ => exact h.pass rfl fun _ hp => hp

/-- What is on a list is retired, so a source that `protect` loads does not equal it. -/
theorem Unlinked.sound (h : Unlinked s) (hbooks : Books s) : ∀ e, Sound s t e := by
  intro e
  cases e with
  | load a =>
      intro p r i hp _ _ _ t' which hz _ hlisted
      obtain ⟨r', _, x, hx, rfl⟩ := hlisted
      have hgone := (hbooks.waiting (which.place r') x (by cases which <;> nofun) hx).2
      rw [h a x.p hp] at hgone
      cases hgone
  | store | retire | other => trivial

theorem sound_of_disciplined (h : Runs Disciplined s) : Unlinked s ∧ Runs Sound s := by
  induction h with
  | start hs =>
      rw [hs]
      exact ⟨nofun, .start rfl⟩
  | step hs hstep meets ih =>
    obtain ⟨hunlinked, hsound⟩ := ih
    exact ⟨step_unlinked hunlinked meets hstep,
      hsound.step hstep (hunlinked.sound (books_of_runs hs) _)⟩

/-- When every object is unlinked before it is retired, what `protect` returned from a slot is
not deleted while the slot holds it, and what is retired is deleted at most once. -/
theorem protected_of_disciplinedRuns (s : State) (hruns : Runs Disciplined s) : Protected s :=
  (slots_of_runs (sound_of_disciplined hruns).2).guarded (books_of_runs hruns)

/-- An object is unlinked and retired while a slot holds it, and the scan keeps it. -/
theorem held_protected : ∃ s, (s.record 0).returned 0 = some 0 ∧
    s.boxes (.record 1) = [⟨7, 0⟩] ∧ Protected s := by
  -- two threads get a record each
  have h₀ : Runs Disciplined .new := .start rfl
  have h₁ := (((h₀.step (.acquire 0 rfl rfl)).step (.acquireNew 0 rfl)).step
    (.acquirePush 0 0 rfl)).step (.acquireCount 0 rfl)
  have h₂ := ((((h₁.step (.acquire 1 rfl rfl)).step (.acquireLook 1 _ _ rfl)).step
    (.acquireNew 1 rfl)).step (.acquirePush 1 1 rfl)).step (.acquireCount 1 rfl)
  -- one of them protects what the other then unlinks and retires
  have hlive : ∀ p, some 7 = some p → State.new.gone p = false := fun _ _ => rfl
  have h₃ := (((h₂.step (.store 2 0 (some 7)) hlive).step
    (.protect 0 0 0 rfl rfl)).step (.protectLoad 0 0 rfl)).step
    (.protectMiss 0 0 0 7 0 0 rfl rfl (by decide) nofun)
  have h₄ := (((h₃.step (.protectMiss 0 0 0 7 0 1 rfl rfl (by decide) nofun)).step
    (.protectMiss 0 0 0 7 0 2 rfl rfl (by decide) nofun)).step
    (.protectMiss 0 0 0 7 0 3 rfl rfl (by decide) nofun)).step
    (.protectMiss 0 0 0 7 0 4 rfl rfl (by decide) nofun)
  have h₅ := (((h₄.step (.protectMiss 0 0 0 7 0 5 rfl rfl (by decide) nofun)).step
    (.protectMiss 0 0 0 7 0 6 rfl rfl (by decide) nofun)).step
    (.protectMiss 0 0 0 7 0 7 rfl rfl (by decide) nofun)).step (.protectFull 0 0 7 0 rfl)
  have h₆ := ((h₅.step (.protectPublish 0 0 0 7 rfl rfl)).step
    (.protectValidate 0 0 0 7 0 rfl rfl rfl)).step (.store 1 0 none) nofun
  have hunlinked : ∀ a, Function.update (Function.update State.new.src 0 (some 7)) 0 none a ≠
      some 7 := fun a => by
    by_cases ha : a = 0
    · rw [ha, Function.update_self]
      nofun
    · rw [Function.update_of_ne ha, Function.update_of_ne ha]
      nofun
  have h₇ := ((h₆.step (.retire 1 1 7 rfl rfl rfl) hunlinked).step
    (.retireCount 1 1 rfl rfl)).step (.scan 1 1 rfl rfl)
  -- the scan reads the slots of both records
  have h₈ := (((((h₇.step (.collect 1 1 _ _ _ _ rfl)).step
    (.collectSlot 1 1 0 _ _ _ _ rfl (by decide))).step
    (.collectSlot 1 1 1 _ _ _ _ rfl (by decide))).step
    (.collectSlot 1 1 2 _ _ _ _ rfl (by decide))).step
    (.collectSlot 1 1 3 _ _ _ _ rfl (by decide))).step
    (.collectSlot 1 1 4 _ _ _ _ rfl (by decide))
  have h₉ := (((h₈.step (.collectSlot 1 1 5 _ _ _ _ rfl (by decide))).step
    (.collectSlot 1 1 6 _ _ _ _ rfl (by decide))).step
    (.collectSlot 1 1 7 _ _ _ _ rfl (by decide))).step (.collectNext 1 1 _ _ _ _ rfl)
  have h₁₀ := (((((h₉.step (.collect 1 0 _ _ _ _ rfl)).step
    (.collectSlot 1 0 0 _ _ _ _ rfl (by decide))).step
    (.collectSlot 1 0 1 _ _ _ _ rfl (by decide))).step
    (.collectSlot 1 0 2 _ _ _ _ rfl (by decide))).step
    (.collectSlot 1 0 3 _ _ _ _ rfl (by decide))).step
    (.collectSlot 1 0 4 _ _ _ _ rfl (by decide))
  have h₁₁ := (((h₁₀.step (.collectSlot 1 0 5 _ _ _ _ rfl (by decide))).step
    (.collectSlot 1 0 6 _ _ _ _ rfl (by decide))).step
    (.collectSlot 1 0 7 _ _ _ _ rfl (by decide))).step (.collectNext 1 0 _ _ _ _ rfl)
  have hkept := (h₁₁.step (.collectEnd 1 _ _ _ rfl)).step
    (.siftKeep 1 1 _ _ _ ⟨7, 0⟩ [] [] rfl rfl rfl List.mem_cons_self)
  exact ⟨_, rfl, rfl, protected_of_disciplinedRuns _ hkept⟩

end Uvent.Reclaim.Hazard
