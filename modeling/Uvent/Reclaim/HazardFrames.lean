import Uvent.Reclaim.HazardRuns

/-!
# What a step of the domain leaves alone

A step of one thread changes neither another thread nor the slots of its record, and what was
deleted grows only by an object that was retired.
-/

namespace Uvent.Reclaim.Hazard

variable {s d : State} {t t' r : Nat} {e : Event}

theorem step_others (hstep : Step s t e d) (hne : t' ≠ t) : d.thread t' = s.thread t' := by
  cases hstep with
  | store => rfl
  | siftKeep r which leaving hz x kept rest pc bound next hazard =>
      exact congrFun (setList_thread ..) t'
  | siftDelete r which leaving hz x kept rest pc bound next free =>
      exact congrFun (setList_thread ..) t'
  | siftEnd r which leaving hz kept pc bound finished =>
      refine (Function.update_of_ne hne ..).trans ?_
      exact congrFun (setList_thread ..) t'
  | _ => exact Function.update_of_ne hne ..

def Kept (s d : State) (r : Nat) : Prop :=
  (d.record r).hp = (s.record r).hp ∧ (d.record r).returned = (s.record r).returned

theorem kept_of_ne {r' : Nat} {x : Record} (hrecord : d.record = Function.update s.record r x)
    (hne : r' ≠ r) : Kept s d r' := by
  unfold Kept
  rw [hrecord, Function.update_of_ne hne]
  exact ⟨rfl, rfl⟩

theorem kept_setRecord {r' : Nat} {x : Record} (hrecord : d.record = Function.update s.record r x)
    (hhp : x.hp = (s.record r).hp) (hreturned : x.returned = (s.record r).returned) :
    Kept s d r' := by
  by_cases hr : r' = r
  · unfold Kept
    rw [hrecord, hr, Function.update_self]
    exact ⟨hhp, hreturned⟩
  · exact kept_of_ne hrecord hr

theorem kept_setList {kept rest : List Retired} {which : Which} {r' : Nat}
    (hrecord : d.record = (s.setList r kept rest which).record) : Kept s d r' := by
  cases which with
  | own => exact kept_setRecord hrecord rfl rfl
  | orphans =>
      unfold Kept
      rw [hrecord]
      exact ⟨rfl, rfl⟩

/-- The slots of a thread are written by this thread only. -/
theorem step_kept (hrecords : Records s) (hstep : Step s t e d) (hne : t' ≠ t) {r' : Nat}
    (hr' : (s.thread t').tls = some r') : Kept s d r' := by
  have hapart : ∀ r, (s.thread t).tls = some r → r' ≠ r := by
    rintro r hr rfl
    exact hne (hrecords.tls_unique hr' hr)
  cases hstep with
  | acquireTake r rest pc free => exact kept_setRecord rfl rfl rfl
  | acquireNew pc =>
      refine kept_of_ne rfl fun hr => ?_
      have hlt := hrecords.known r' (hrecords.bound hr').2
      rw [hr] at hlt
      exact Nat.lt_irrefl _ hlt
  | protectHit r a p gen i pc bound more hit => exact kept_of_ne rfl (hapart r bound)
  | protectPublish r a p pc bound => exact kept_of_ne rfl (hapart r bound)
  | protectValidate r a p i pc bound again => exact kept_of_ne rfl (hapart r bound)
  | retire r p pc bound once => exact kept_setRecord rfl rfl rfl
  | siftKeep r which leaving hz x kept rest pc bound next hazard => exact kept_setList rfl
  | siftDelete r which leaving hz x kept rest pc bound next free => exact kept_setList rfl
  | siftEnd r which leaving hz kept pc bound finished => exact kept_setList rfl
  | releaseOrphans r pc bound left unlocked => exact kept_setRecord rfl rfl rfl
  | releaseSlot r i pc bound more => exact kept_of_ne rfl (hapart r bound)
  | releaseRecord r pc bound => exact kept_setRecord rfl rfl rfl
  | _ => exact ⟨rfl, rfl⟩

theorem step_src (hstep : Step s t e d) (hstore : ∀ a v, e ≠ .store a v) : d.src = s.src := by
  cases hstep with
  | store a v => exact absurd rfl (hstore a v)
  | siftKeep r which leaving hz x kept rest pc bound next hazard => cases which <;> rfl
  | siftDelete r which leaving hz x kept rest pc bound next free => cases which <;> rfl
  | siftEnd r which leaving hz kept pc bound finished => cases which <;> rfl
  | _ => rfl

/-- Nothing is deleted, and nothing but the argument of `retire` is retired. -/
structure Keeps (s : State) (e : Event) (d : State) : Prop where
  deleted : d.deleted = s.deleted
  gen : d.gen = s.gen
  gone : d.gone = s.gone ∨ ∃ p, e = .retire p ∧ d.gone = Function.update s.gone p true

structure Deletes (s : State) (x : Retired) (d : State) : Prop where
  retired : s.gone x.p = true
  current : x.gen = s.gen x.p
  deleted : d.deleted = x :: s.deleted
  gen : d.gen = Function.update s.gen x.p (s.gen x.p + 1)
  gone : d.gone = Function.update s.gone x.p false

theorem keeps_setList {r : Nat} {kept rest : List Retired} {which : Which}
    (hdeleted : d.deleted = (s.setList r kept rest which).deleted)
    (hgen : d.gen = (s.setList r kept rest which).gen)
    (hgone : d.gone = (s.setList r kept rest which).gone) : Keeps s e d := by
  cases which <;> exact ⟨hdeleted, hgen, .inl hgone⟩

theorem step_keeps (hbooks : Books s) (hstep : Step s t e d) :
    Keeps s e d ∨ ∃ x, Deletes s x d := by
  cases hstep with
  | siftKeep r which leaving hz x kept rest pc bound next hazard =>
      exact .inl (keeps_setList rfl rfl rfl)
  | siftEnd r which leaving hz kept pc bound finished => exact .inl (keeps_setList rfl rfl rfl)
  | siftDelete r which leaving hz x kept rest pc bound next free =>
      have hx : x ∈ s.boxes (which.place r) := by
        rw [list_boxes, next]
        exact List.mem_append_right _ List.mem_cons_self
      obtain ⟨hcurrent, hretired⟩ := hbooks.waiting (which.place r) x (by cases which <;> nofun) hx
      refine .inr ⟨x, hretired, hcurrent, ?_, ?_, ?_⟩ <;> cases which <;> rfl
  | retire r p pc bound once => exact .inl ⟨rfl, rfl, .inr ⟨p, rfl, rfl⟩⟩
  | _ => exact .inl ⟨rfl, rfl, .inl rfl⟩

end Uvent.Reclaim.Hazard
