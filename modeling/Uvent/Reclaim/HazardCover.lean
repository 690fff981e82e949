import Uvent.Reclaim.HazardBooks

/-!
# Slots that a scan finds

A slot from which `protect` returned, or that holds what `protect` has just loaded from a
source, is covered: every reclaim under way whose list has the object has found it in a slot,
or is yet to read this one.  So no reclaim deletes what such a slot holds.
-/

namespace Uvent.Reclaim.Hazard

def Pc.pending (pc : Pc) (r i : Nat) : Prop :=
  match pc with
  | .collect _ _ _ rest => r ∈ rest
  | .collectSlot _ _ _ r' j rest => (r = r' ∧ j ≤ i) ∨ r ∈ rest
  | _ => False

def Listed (s : State) (t : Nat) (which : Which) (p : Nat) : Prop :=
  ∃ r, (s.thread t).tls = some r ∧ ∃ x ∈ s.boxes (which.place r), x.p = p

/-- Every reclaim under way whose list has `p` has found it or is yet to read slot `i` of
`r`. -/
def Covered (s : State) (p r i : Nat) : Prop :=
  ∀ t which hz, (s.thread t).pc.reclaim = some (which, hz) → Listed s t which p →
    p ∈ hz ∨ (s.thread t).pc.pending r i

/-- What `protect` loads from a source is covered in the slot of the thread that holds it. -/
def Sound (s : State) (t : Nat) : Event → Prop
  | .load a => ∀ p r i, s.src a = some p → (s.thread t).tls = some r → i < kSlots →
      (s.record r).hp i = some p → Covered s p r i
  | _ => True

/-- A slot that `protect` returned from or may return from. -/
structure Claims (s : State) (p r i : Nat) : Prop where
  slot : i < kSlots
  holds : (s.record r).hp i = some p
  used : (s.record r).returned i ≠ none ∨
    ∃ t a g j, (s.thread t).tls = some r ∧ (s.thread t).pc = .protectCheck a p g j

structure Tidy (gen : Nat → Nat) (x : Record) (pc : Pc) : Prop where
  victim : x.victim < kSlots
  returned : ∀ i g, x.returned i = some g → i < kSlots ∧ ∃ p, x.hp i = some p ∧ gen p = g
  validating : ∀ a p i, pc = .protectValidate a p i → i < kSlots ∧ x.hp i = some p
  checking : ∀ a p g j, pc = .protectCheck a p g j → ∀ i, i < kSlots → x.hp i = some p → gen p = g
  releasing : ∀ i, pc = .releaseSlots i → ∀ j, j < i → x.returned j = none

structure Slots (s : State) : Prop where
  tidy : ∀ t r, (s.thread t).tls = some r → Tidy s.gen (s.record r) (s.thread t).pc
  unused : ∀ r, (∀ t, (s.thread t).tls ≠ some r) →
    (s.record r).victim < kSlots ∧ ∀ i, (s.record r).returned i = none
  covered : ∀ p r i, Claims s p r i → Covered s p r i

variable {s s' : State} {t r : Nat} {th : Thread} {e : Event} {which : Which} {gen : Nat → Nat}
  {x x' : Record} {pc pc' : Pc}

theorem covered_of_quiet {p i : Nat} (h : ∀ t, (s.thread t).pc.reclaim = none) :
    Covered s p r i := by
  intro t which hz hreclaim
  rw [h t] at hreclaim
  cases hreclaim

theorem slots_new : Slots .new where
  tidy _ _ := nofun
  unused _ _ := ⟨Nat.succ_pos 7, fun _ => rfl⟩
  covered _ _ _ h := absurd h.holds nofun

theorem Slots.holder (h : Slots s) {p i : Nat} (hc : Claims s p r i) :
    ∃ t, (s.thread t).tls = some r := by
  rcases hc.used with hreturned | ⟨t, _, _, _, htls, _⟩
  · by_contra hcontra
    exact hreturned ((h.unused r fun t ht => hcontra ⟨t, ht⟩).2 i)
  · exact ⟨t, htls⟩

structure SameSlots (x x' : Record) : Prop where
  hp : x'.hp = x.hp
  returned : x'.returned = x.returned
  victim : x'.victim = x.victim

theorem SameSlots.refl (x : Record) : SameSlots x x := ⟨rfl, rfl, rfl⟩

theorem sameSlots_update (hsame : SameSlots (s.record r) x) (r' : Nat) :
    SameSlots (s.record r') (Function.update s.record r x r') := by
  by_cases hr : r' = r
  · rw [hr, Function.update_self]
    exact hsame
  · rw [Function.update_of_ne hr]
    exact .refl _

theorem Tidy.same (h : Tidy gen x pc) (hsame : SameSlots x x') : Tidy gen x' pc := by
  obtain ⟨hhp, hreturned, hvictim⟩ := hsame
  refine ⟨?_, ?_, ?_, ?_, ?_⟩
  · rw [hvictim]
    exact h.victim
  · rw [hreturned, hhp]
    exact h.returned
  · rw [hhp]
    exact h.validating
  · rw [hhp]
    exact h.checking
  · rw [hreturned]
    exact h.releasing

def Pc.slotless : Pc → Bool
  | .protectValidate .. | .protectCheck .. | .releaseSlots _ => false
  | _ => true

theorem Tidy.goto (h : Tidy gen x pc) (hpc : pc'.slotless = true) : Tidy gen x pc' := by
  refine ⟨h.victim, h.returned, fun a p i heq => ?_, fun a p g j heq => ?_, fun i heq => ?_⟩
  all_goals
    rw [heq] at hpc
    exact Bool.noConfusion hpc

/-- One thread goes on, and no slot is written. -/
theorem Slots.go (h : Slots s) (hthread : s'.thread = Function.update s.thread t th)
    (htls : th.tls = (s.thread t).tls) (hslots : ∀ r, SameSlots (s.record r) (s'.record r))
    (hgen : s'.gen = s.gen)
    (htidy : ∀ r, (s.thread t).tls = some r → Tidy s.gen (s.record r) th.pc)
    (hcheck : ∀ a p g j, th.pc = .protectCheck a p g j → ∀ r i, (s.thread t).tls = some r →
      i < kSlots → (s.record r).hp i = some p → Covered s p r i)
    (hlists : ∀ t', t' ≠ t → ∀ which hz p, (s.thread t').pc.reclaim = some (which, hz) →
      Listed s' t' which p → Listed s t' which p)
    (hself : ∀ p r i, i < kSlots → (s.record r).hp i = some p →
      (∃ t', (s.thread t').tls = some r) → Covered s p r i → ∀ which hz,
        th.pc.reclaim = some (which, hz) → Listed s' t which p → p ∈ hz ∨ th.pc.pending r i) :
    Slots s' := by
  have hself' : s'.thread t = th := by rw [hthread, Function.update_self]
  have hother : ∀ t', t' ≠ t → s'.thread t' = s.thread t' := fun t' ht => by
    rw [hthread, Function.update_of_ne ht]
  have hbound : ∀ t', (s'.thread t').tls = (s.thread t').tls := by
    intro t'
    by_cases ht : t' = t
    · rw [ht, hself', htls]
    · rw [hother t' ht]
  refine ⟨fun t' r hr => ?_, fun r hfree => ?_, fun p r i hc => ?_⟩
  · rw [hbound] at hr
    rw [hgen]
    refine Tidy.same ?_ (hslots r)
    by_cases ht : t' = t
    · rw [ht, hself']
      exact htidy r (ht ▸ hr)
    · rw [hother t' ht]
      exact h.tidy t' r hr
  · have hunused := h.unused r fun t' => hbound t' ▸ hfree t'
    rw [(hslots r).victim, (hslots r).returned]
    exact hunused
  · have hhp : (s.record r).hp i = some p := (hslots r).hp ▸ hc.holds
    have hold : Covered s p r i ∧ ∃ t', (s.thread t').tls = some r := by
      rcases hc.used with hreturned | ⟨t', a, g, j, hr, hpc⟩
      · rw [(hslots r).returned] at hreturned
        have hclaims : Claims s p r i := ⟨hc.slot, hhp, .inl hreturned⟩
        exact ⟨h.covered p r i hclaims, h.holder hclaims⟩
      · rw [hbound] at hr
        refine ⟨?_, t', hr⟩
        by_cases ht : t' = t
        · rw [ht, hself'] at hpc
          exact hcheck a p g j hpc r i (ht ▸ hr) hc.slot hhp
        · rw [hother t' ht] at hpc
          exact h.covered p r i ⟨hc.slot, hhp, .inr ⟨t', a, g, j, hr, hpc⟩⟩
    intro t' which hz hreclaim hlisted
    by_cases ht : t' = t
    · rw [ht, hself'] at hreclaim ⊢
      exact hself p r i hc.slot hhp hold.2 hold.1 which hz hreclaim (ht ▸ hlisted)
    · rw [hother t' ht] at hreclaim ⊢
      exact hold.1 t' which hz hreclaim (hlists t' ht which hz p hreclaim hlisted)

theorem listed_of_boxes {p t' : Nat} (htls : (s'.thread t').tls = (s.thread t').tls)
    (hboxes : ∀ r, (s.thread t').tls = some r → ∀ x ∈ s'.boxes (which.place r),
      x ∈ s.boxes (which.place r)) (hlisted : Listed s' t' which p) : Listed s t' which p := by
  obtain ⟨r, hr, x, hx, hp⟩ := hlisted
  rw [htls] at hr
  exact ⟨r, hr, x, hboxes r hr x hx, hp⟩

theorem listed_same {p t' : Nat} (hthread : s'.thread = Function.update s.thread t th)
    (htls : th.tls = (s.thread t).tls) (hboxes : s'.boxes = s.boxes)
    (hlisted : Listed s' t' which p) : Listed s t' which p := by
  refine listed_of_boxes ?_ (fun r _ x hx => hboxes ▸ hx) hlisted
  rw [hthread]
  by_cases ht : t' = t
  · rw [ht, Function.update_self, htls]
  · rw [Function.update_of_ne ht]

/-- A thread that reclaims nothing goes on, and no slot is written. -/
theorem Slots.rest (h : Slots s)
    (hthread : s'.thread = Function.update s.thread t { s.thread t with pc := pc })
    (hslots : ∀ r, SameSlots (s.record r) (s'.record r)) (hgen : s'.gen = s.gen)
    (hslotless : pc.slotless = true) (hreclaim : pc.reclaim = none)
    (hboxes : ∀ t', t' ≠ t → ∀ which hz, (s.thread t').pc.reclaim = some (which, hz) →
      ∀ r, (s.thread t').tls = some r → ∀ x ∈ s'.boxes (which.place r),
        x ∈ s.boxes (which.place r)) : Slots s' := by
  refine h.go hthread rfl hslots hgen (fun r hr => (h.tidy t r hr).goto hslotless) ?_ ?_ ?_
  · intro a p g j hpc
    have hpc' : pc = .protectCheck a p g j := hpc
    rw [hpc'] at hslotless
    exact Bool.noConfusion hslotless
  · intro t' ht which hz p hpc hlisted
    refine listed_of_boxes ?_ (hboxes t' ht which hz hpc) hlisted
    rw [hthread, Function.update_of_ne ht]
  · intro p r i _ _ _ _ which hz hpc
    have hpc' : pc.reclaim = some (which, hz) := hpc
    rw [hreclaim] at hpc'
    cases hpc'

/-- A reclaim goes on with its collection, or begins to. -/
theorem Slots.reclaim (h : Slots s)
    (hthread : s'.thread = Function.update s.thread t { s.thread t with pc := pc })
    (hrecord : s'.record = s.record) (hgen : s'.gen = s.gen) (hboxes : s'.boxes = s.boxes)
    (hslotless : pc.slotless = true)
    (hself : ∀ p r i, i < kSlots → (s.record r).hp i = some p →
      (∃ t', (s.thread t').tls = some r) → Covered s p r i → ∀ which hz,
        pc.reclaim = some (which, hz) → Listed s t which p → p ∈ hz ∨ pc.pending r i) :
    Slots s' := by
  refine h.go hthread rfl (fun r => hrecord ▸ .refl _) hgen
    (fun r hr => (h.tidy t r hr).goto hslotless) ?_
    (fun t' _ which _ p _ => listed_same hthread rfl hboxes) ?_
  · intro a p g j hpc
    have hpc' : pc = .protectCheck a p g j := hpc
    rw [hpc'] at hslotless
    exact Bool.noConfusion hslotless
  · intro p r i hi hhp hholder hcovered which hz hpc hlisted
    exact hself p r i hi hhp hholder hcovered which hz hpc
      (listed_same hthread rfl hboxes hlisted)

/-- A collection begins at the head of the chain, on which every record in use is. -/
theorem Slots.collect_start (h : Slots s) (hrecords : Records s) {leaving : Bool}
    (hthread : s'.thread =
      Function.update s.thread t { s.thread t with pc := .collect which leaving [] s.head })
    (hrecord : s'.record = s.record) (hgen : s'.gen = s.gen) (hboxes : s'.boxes = s.boxes) :
    Slots s' := by
  refine h.reclaim hthread hrecord hgen hboxes rfl ?_
  rintro p r i _ _ ⟨t', hr⟩ _ which hz _ _
  exact .inr (hrecords.bound hr).1

/-- A load of a source by `protect` is followed by a look at the slots. -/
theorem Slots.load (h : Slots s) {a : Nat} (hok : Sound s t (.load a)) :
    Slots (s.goto t (afterLoad s a)) := by
  unfold afterLoad
  split
  · exact h.rest rfl (fun _ => .refl _) rfl rfl rfl fun _ _ _ _ _ r _ x hx => hx
  · rename_i p hsrc
    have hboxes : (s.goto t (.protectCheck a p (s.gen p) 0)).boxes = s.boxes := goto_boxes ..
    refine h.go rfl rfl (fun _ => .refl _) rfl (fun r hr => ?_) ?_
      (fun _ _ _ _ _ _ => listed_same rfl rfl hboxes) nofun
    · have htidy := h.tidy t r hr
      refine ⟨htidy.victim, htidy.returned, nofun, ?_, nofun⟩
      rintro a' p' g j ⟨⟩ _ _ _
      rfl
    · rintro a' p' g j ⟨⟩ r i hr hi hhp
      exact hok p r i hsrc hr hi hhp

/-- What a reclaim with this hazard list would delete is claimed nowhere. -/
theorem Slots.unclaimed (h : Slots s) {leaving : Bool} {hz : List Nat} {p : Nat}
    (pc : (s.thread t).pc = .sift which leaving hz) (hlisted : Listed s t which p)
    (free : p ∉ hz) (r i : Nat) : ¬ Claims s p r i := by
  intro hc
  have hcovered := h.covered p r i hc t which hz (by rw [pc]; rfl) hlisted
  rw [pc] at hcovered
  exact hcovered.elim free id

theorem Slots.same (h : Slots s) (hthread : s'.thread = s.thread)
    (hslots : ∀ r, SameSlots (s.record r) (s'.record r))
    (htidy : ∀ t r, (s.thread t).tls = some r → Tidy s'.gen (s.record r) (s.thread t).pc)
    (hboxes : ∀ b, b ≠ .deleted → ∀ x ∈ s'.boxes b, x ∈ s.boxes b) : Slots s' := by
  refine ⟨fun t' r hr => ?_, fun r hfree => ?_, fun p r i hc t' which hz hreclaim hlisted => ?_⟩
  · rw [hthread] at hr ⊢
    exact (htidy t' r hr).same (hslots r)
  · rw [hthread] at hfree
    rw [(hslots r).victim, (hslots r).returned]
    exact h.unused r hfree
  · have hold : Claims s p r i := by
      obtain ⟨hslot, hholds, hused⟩ := hc
      rw [hthread] at hused
      rw [(hslots r).returned] at hused
      exact ⟨hslot, (hslots r).hp ▸ hholds, hused⟩
    rw [hthread] at hreclaim ⊢
    refine h.covered p r i hold t' which hz hreclaim (listed_of_boxes ?_ (fun r' _ => ?_) hlisted)
    · rw [hthread]
    · refine hboxes _ ?_
      cases which <;> nofun

theorem setList_slots (s : State) (r : Nat) (kept rest : List Retired) (which : Which) (r' : Nat) :
    SameSlots (s.record r') ((s.setList r kept rest which).record r') := by
  cases which with
  | own =>
      refine sameSlots_update ?_ r'
      exact ⟨rfl, rfl, rfl⟩
  | orphans => exact .refl _

theorem setList_shrinks {kept rest : List Retired}
    (hsub : ∀ x ∈ kept ++ rest, x ∈ (s.list r which).1 ++ (s.list r which).2) (b : Place)
    (x : Retired) (hx : x ∈ (s.setList r kept rest which).boxes b) : x ∈ s.boxes b := by
  obtain ⟨hself, hother⟩ := setList_boxes s r kept rest which
  by_cases hb : b = which.place r
  · rw [hb, hself] at hx
    rw [hb, list_boxes]
    exact hsub x hx
  · rwa [hother b hb] at hx

theorem Slots.keep (h : Slots s) {x : Retired} {kept rest : List Retired}
    (next : s.list r which = (kept, x :: rest)) :
    Slots (s.setList r (kept ++ [x]) rest which) := by
  have hgen : (s.setList r (kept ++ [x]) rest which).gen = s.gen := by cases which <;> rfl
  refine h.same (setList_rest ..).1 (setList_slots s r _ rest which) (hgen ▸ h.tidy) fun b _ =>
    setList_shrinks (fun y hy => ?_) b
  rw [next]
  exact (List.append_assoc kept [x] rest) ▸ hy

theorem Slots.delete (h : Slots s) {leaving : Bool} {hz : List Nat} {x : Retired}
    {kept rest : List Retired} (pc : (s.thread t).pc = .sift which leaving hz)
    (bound : (s.thread t).tls = some r) (next : s.list r which = (kept, x :: rest))
    (free : x.p ∉ hz) : Slots ((s.setList r kept rest which).delete x) := by
  have hin : x ∈ s.boxes (which.place r) := by
    rw [list_boxes, next]
    exact List.mem_append_right _ List.mem_cons_self
  have hunclaimed : ∀ r' i, ¬ Claims s x.p r' i :=
    h.unclaimed pc ⟨r, bound, x, hin, rfl⟩ free
  have hgens : (s.setList r kept rest which).gen = s.gen := by cases which <;> rfl
  have hgen : ∀ q, q ≠ x.p → ((s.setList r kept rest which).delete x).gen q = s.gen q := by
    intro q hq
    show Function.update (s.setList r kept rest which).gen x.p _ q = s.gen q
    rw [Function.update_of_ne hq, hgens]
  have hsub : ∀ z ∈ kept ++ rest, z ∈ (s.list r which).1 ++ (s.list r which).2 := by
    intro z hz
    rw [next]
    rcases List.mem_append.mp hz with hz | hz
    · exact List.mem_append_left _ hz
    · exact List.mem_append_right _ (List.mem_cons_of_mem _ hz)
  refine h.same (setList_rest ..).1 (setList_slots s r kept rest which) (fun t' r' hr => ?_)
    fun b hb y hy => setList_shrinks hsub b y ?_
  · obtain ⟨hvictim, hreturned, hvalidating, hchecking, hreleasing⟩ := h.tidy t' r' hr
    refine ⟨hvictim, fun i g hg => ?_, hvalidating, fun a p g j hpc i hi hhp => ?_, hreleasing⟩
    · obtain ⟨hi, p, hhp, hp⟩ := hreturned i g hg
      refine ⟨hi, p, hhp, (hgen p ?_).trans hp⟩
      rintro rfl
      exact hunclaimed r' i ⟨hi, hhp, .inl (by rw [hg]; nofun)⟩
    · refine (hgen p ?_).trans (hchecking a p g j hpc i hi hhp)
      rintro rfl
      exact hunclaimed r' i ⟨hi, hhp, .inr ⟨t', a, g, j, hr, hpc⟩⟩
  · cases b with
    | record | orphans => exact hy
    | deleted => exact absurd rfl hb

theorem Slots.write (h : Slots s) (hrecords : Records s) {x : Record}
    (hthread : s'.thread = Function.update s.thread t { s.thread t with pc := pc })
    (hrecord : s'.record = Function.update s.record r x) (hgen : s'.gen = s.gen)
    (hboxes : s'.boxes = s.boxes) (bound : (s.thread t).tls = some r) (hreclaim : pc.reclaim = none)
    (htidy : Tidy s.gen x pc)
    (hclaims : ∀ p i, i < kSlots → x.hp i = some p →
      (x.returned i ≠ none ∨ ∃ a g j, pc = .protectCheck a p g j) → Covered s p r i) : Slots s' := by
  have hself : s'.thread t = { s.thread t with pc := pc } := by rw [hthread, Function.update_self]
  have hother : ∀ t', t' ≠ t → s'.thread t' = s.thread t' := fun t' ht => by
    rw [hthread, Function.update_of_ne ht]
  have hbound : ∀ t', (s'.thread t').tls = (s.thread t').tls := by
    intro t'
    by_cases ht : t' = t
    · rw [ht, hself]
    · rw [hother t' ht]
  have hmine : s'.record r = x := by rw [hrecord, Function.update_self]
  have hkept : ∀ r', r' ≠ r → s'.record r' = s.record r' := fun r' hr => by
    rw [hrecord, Function.update_of_ne hr]
  have hne : ∀ {t' r'}, t' ≠ t → (s.thread t').tls = some r' → r' ≠ r := by
    rintro t' r' ht hr rfl
    exact ht (hrecords.tls_unique hr bound)
  refine ⟨fun t' r' hr => ?_, fun r' hfree => ?_, fun p r' i hc => ?_⟩
  · rw [hbound] at hr
    rw [hgen]
    by_cases ht : t' = t
    · rw [ht, bound] at hr
      cases hr
      rw [ht, hself, hmine]
      exact htidy
    · rw [hother t' ht, hkept r' (hne ht hr)]
      exact h.tidy t' r' hr
  · have hfree' : ∀ t', (s.thread t').tls ≠ some r' := fun t' => hbound t' ▸ hfree t'
    have hr : r' ≠ r := by
      rintro rfl
      exact hfree' t bound
    rw [hkept r' hr]
    exact h.unused r' hfree'
  · have hold : Covered s p r' i := by
      obtain ⟨hslot, hholds, hused⟩ := hc
      by_cases hr : r' = r
      · rw [hr, hmine] at hholds hused
        rw [hr]
        refine hclaims p i hslot hholds (hused.imp id ?_)
        rintro ⟨t', a, g, j, htls, hpc⟩
        rw [hbound] at htls
        have ht : t' = t := hrecords.tls_unique htls bound
        rw [ht, hself] at hpc
        exact ⟨a, g, j, hpc⟩
      · rw [hkept r' hr] at hholds hused
        refine h.covered p r' i ⟨hslot, hholds, hused.imp id ?_⟩
        rintro ⟨t', a, g, j, htls, hpc⟩
        rw [hbound] at htls
        have ht : t' ≠ t := by
          rintro rfl
          rw [bound] at htls
          exact hr (Option.some.inj htls).symm
        rw [hother t' ht] at hpc
        exact ⟨t', a, g, j, htls, hpc⟩
    intro t' which hz hpc hlisted
    by_cases ht : t' = t
    · rw [ht, hself] at hpc
      have hpc' : pc.reclaim = some (which, hz) := hpc
      rw [hreclaim] at hpc'
      cases hpc'
    · rw [hother t' ht] at hpc ⊢
      exact hold t' which hz hpc (listed_same hthread rfl hboxes hlisted)

theorem Slots.bind (h : Slots s) (hthread : s'.thread = Function.update s.thread t ⟨pc, some r⟩)
    (hslots : ∀ r, SameSlots (s.record r) (s'.record r)) (hgen : s'.gen = s.gen)
    (hboxes : s'.boxes = s.boxes) (hunused : ∀ t', (s.thread t').tls ≠ some r)
    (hfree : (s.thread t).tls = none) (hslotless : pc.slotless = true)
    (hreclaim : pc.reclaim = none) : Slots s' := by
  have hself : s'.thread t = ⟨pc, some r⟩ := by rw [hthread, Function.update_self]
  have hother : ∀ t', t' ≠ t → s'.thread t' = s.thread t' := fun t' ht => by
    rw [hthread, Function.update_of_ne ht]
  refine ⟨fun t' r' hr => ?_, fun r' hfree' => ?_, fun p r' i hc => ?_⟩
  · rw [hgen]
    refine Tidy.same ?_ (hslots r')
    by_cases ht : t' = t
    · rw [ht, hself] at hr ⊢
      cases hr
      obtain ⟨hvictim, hnone⟩ := h.unused r hunused
      have htidy : Tidy s.gen (s.record r) .idle := by
        refine ⟨hvictim, fun i g hg => ?_, nofun, nofun, nofun⟩
        rw [hnone i] at hg
        cases hg
      exact htidy.goto hslotless
    · rw [hother t' ht] at hr ⊢
      exact h.tidy t' r' hr
  · rw [(hslots r').victim, (hslots r').returned]
    refine h.unused r' fun t' htls => ?_
    have ht : t' ≠ t := by
      rintro rfl
      rw [hfree] at htls
      cases htls
    exact hfree' t' ((congrArg Thread.tls (hother t' ht)).trans htls)
  · have hold : Claims s p r' i := by
      obtain ⟨hslot, hholds, hused⟩ := hc
      rw [(hslots r').hp] at hholds
      rw [(hslots r').returned] at hused
      refine ⟨hslot, hholds, hused.imp id ?_⟩
      rintro ⟨t', a, g, j, htls, hpc⟩
      have ht : t' ≠ t := by
        rintro rfl
        rw [hself] at hpc
        have hpc' : pc = .protectCheck a p g j := hpc
        rw [hpc'] at hslotless
        exact Bool.noConfusion hslotless
      rw [hother t' ht] at htls hpc
      exact ⟨t', a, g, j, htls, hpc⟩
    intro t' which hz hpc hlisted
    by_cases ht : t' = t
    · rw [ht, hself] at hpc
      have hpc' : pc.reclaim = some (which, hz) := hpc
      rw [hreclaim] at hpc'
      cases hpc'
    · have hlisted' : Listed s t' which p :=
        listed_of_boxes (congrArg Thread.tls (hother t' ht)) (fun _ _ x hx => hboxes ▸ hx) hlisted
      rw [hother t' ht] at hpc ⊢
      exact h.covered p r' i hold t' which hz hpc hlisted'

theorem Slots.release (h : Slots s)
    (pc : (s.thread t).pc = .releaseSlots kSlots) (bound : (s.thread t).tls = some r) :
    Slots ((s.setRecord r { s.record r with active := false }).setRec t .idle none) := by
  have htidy := h.tidy t r bound
  have hnone : ∀ i, (s.record r).returned i = none := by
    intro i
    by_contra hcontra
    obtain ⟨g, hg⟩ := Option.ne_none_iff_exists'.mp hcontra
    have hi := (htidy.returned i g hg).1
    exact hcontra (htidy.releasing kSlots pc i hi)
  have hslots : ∀ r', SameSlots (s.record r')
      (Function.update s.record r { s.record r with active := false } r') := by
    intro r'
    refine sameSlots_update ?_ r'
    exact ⟨rfl, rfl, rfl⟩
  have hother : ∀ t', t' ≠ t → Function.update s.thread t ⟨.idle, none⟩ t' = s.thread t' :=
    fun t' ht => Function.update_of_ne ht ..
  have hself : Function.update s.thread t ⟨.idle, none⟩ t = ⟨.idle, none⟩ := Function.update_self ..
  refine ⟨fun t' r' hr => ?_, fun r' hfree => ?_, fun p r' i hc => ?_⟩
  · have ht : t' ≠ t := by
      rintro rfl
      have hr' : (Function.update s.thread t' ⟨.idle, none⟩ t').tls = some r' := hr
      rw [hself] at hr'
      cases hr'
    show Tidy s.gen (Function.update s.record r { s.record r with active := false } r')
      (Function.update s.thread t ⟨.idle, none⟩ t').pc
    have hr' : (Function.update s.thread t ⟨.idle, none⟩ t').tls = some r' := hr
    rw [hother t' ht] at hr' ⊢
    exact (h.tidy t' r' hr').same (hslots r')
  · show (Function.update s.record r { s.record r with active := false } r').victim < kSlots ∧
      ∀ i, (Function.update s.record r { s.record r with active := false } r').returned i = none
    rw [(hslots r').victim, (hslots r').returned]
    by_cases hr : r' = r
    · rw [hr]
      exact ⟨htidy.victim, hnone⟩
    · refine h.unused r' fun t' htls => ?_
      have ht : t' ≠ t := by
        rintro rfl
        rw [bound] at htls
        exact hr (Option.some.inj htls).symm
      exact hfree t' ((congrArg Thread.tls (hother t' ht)).trans htls)
  · have hold : Claims s p r' i := by
      obtain ⟨hslot, hholds, hused⟩ := hc
      refine ⟨hslot, (hslots r').hp ▸ hholds, ?_⟩
      rcases hused with hreturned | ⟨t', a, g, j, htls, hpc⟩
      · exact .inl ((hslots r').returned ▸ hreturned)
      · have htls' : (Function.update s.thread t ⟨.idle, none⟩ t').tls = some r' := htls
        have hpc' : (Function.update s.thread t ⟨.idle, none⟩ t').pc = .protectCheck a p g j := hpc
        have ht : t' ≠ t := by
          rintro rfl
          rw [hself] at htls'
          cases htls'
        rw [hother t' ht] at htls' hpc'
        exact .inr ⟨t', a, g, j, htls', hpc'⟩
    intro t' which hz hpc hlisted
    have hpc' : (Function.update s.thread t ⟨.idle, none⟩ t').pc.reclaim = some (which, hz) := hpc
    have ht : t' ≠ t := by
      rintro rfl
      rw [hself] at hpc'
      cases hpc'
    have hboxes : ((s.setRecord r { s.record r with active := false }).setRec t .idle none).boxes =
        s.boxes := write_boxes rfl rfl rfl rfl rfl
    have hlisted' : Listed s t' which p :=
      listed_of_boxes (congrArg Thread.tls (hother t' ht)) (fun _ _ x hx => hboxes ▸ hx) hlisted
    rw [hother t' ht] at hpc'
    show p ∈ hz ∨ (Function.update s.thread t ⟨.idle, none⟩ t').pc.pending r' i
    rw [hother t' ht]
    exact h.covered p r' i hold t' which hz hpc' hlisted'

end Uvent.Reclaim.Hazard
