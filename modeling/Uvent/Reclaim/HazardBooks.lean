import Uvent.Lib.Custody
import Uvent.Reclaim.HazardRecords

/-!
# Where retired objects are in a hazard domain

A retired object is in the list of one record, among the orphans, or deleted.  The entries that
are not deleted are for the objects that are at their addresses now.
-/

namespace Uvent.Reclaim.Hazard

open Uvent.Lib

inductive Place where
  | record (r : Nat)
  | orphans
  | deleted
  deriving DecidableEq, Repr

def State.boxes (s : State) : Place → List Retired
  | .record r => (s.record r).kept ++ (s.record r).retired
  | .orphans => s.orphansKept ++ s.orphans
  | .deleted => s.deleted

def Which.place (r : Nat) : Which → Place
  | .own => .record r
  | .orphans => .orphans

variable {s s' : State} {t r : Nat} {e : Event} {which : Which}

structure Books (s : State) : Prop where
  custody : Custody s.boxes
  waiting : ∀ b x, b ≠ .deleted → x ∈ s.boxes b → x.gen = s.gen x.p ∧ s.gone x.p = true
  past : ∀ x ∈ s.deleted, x.gen < s.gen x.p
  unborn : ∀ r, s.records ≤ r → s.record r = .new

theorem books_new : Books .new where
  custody := by
    have hnone : State.new.boxes = fun _ => [] := by
      funext b
      cases b <;> rfl
    rw [hnone]
    exact custody_nil
  waiting b x _ hx := by cases b <;> cases hx
  past _ := nofun
  unborn _ _ := rfl

theorem Books.pass (h : Books s) (hboxes : s'.boxes = s.boxes) (hgen : s'.gen = s.gen)
    (hgone : s'.gone = s.gone) (hunborn : ∀ r, s'.records ≤ r → s'.record r = .new) : Books s' := by
  have hdeleted : s'.deleted = s.deleted := congrFun hboxes .deleted
  refine ⟨?_, ?_, ?_, hunborn⟩
  · rw [hboxes]
    exact h.custody
  · rw [hboxes, hgen, hgone]
    exact h.waiting
  · rw [hdeleted, hgen]
    exact h.past

theorem Books.bystander (h : Books s) (hrecord : s'.record = s.record)
    (hrecords : s'.records = s.records) (hboxes : s'.boxes = s.boxes) (hgen : s'.gen = s.gen)
    (hgone : s'.gone = s.gone) : Books s' := by
  refine h.pass hboxes hgen hgone ?_
  rw [hrecord, hrecords]
  exact h.unborn

theorem goto_boxes (s : State) (t : Nat) (pc : Pc) : (s.goto t pc).boxes = s.boxes := by
  funext b
  cases b <;> rfl

theorem Books.goto (h : Books s) (t : Nat) (pc : Pc) : Books (s.goto t pc) :=
  h.bystander rfl rfl (goto_boxes s t pc) rfl rfl

theorem unborn_update (h : Books s) (hr : r < s.records) (x : Record) (r' : Nat)
    (hle : s.records ≤ r') : Function.update s.record r x r' = .new := by
  rw [Function.update_of_ne (Nat.ne_of_gt (Nat.lt_of_lt_of_le hr hle))]
  exact h.unborn r' hle

theorem write_boxes {x : Record} (hrecord : s'.record = Function.update s.record r x)
    (hkept : x.kept = (s.record r).kept) (hretired : x.retired = (s.record r).retired)
    (horphans : s'.boxes .orphans = s.boxes .orphans) (hdeleted : s'.deleted = s.deleted) :
    s'.boxes = s.boxes := by
  funext b
  cases b with
  | record r' =>
      show (s'.record r').kept ++ (s'.record r').retired = _
      rw [hrecord]
      by_cases heq : r' = r
      · rw [heq, Function.update_self, hkept, hretired]
        rfl
      · rw [Function.update_of_ne heq]
        rfl
  | orphans => exact horphans
  | deleted => exact hdeleted

theorem Books.write (h : Books s) {x : Record} (hr : r < s.records)
    (hrecord : s'.record = Function.update s.record r x) (hrecords : s'.records = s.records)
    (hkept : x.kept = (s.record r).kept) (hretired : x.retired = (s.record r).retired)
    (horphans : s'.boxes .orphans = s.boxes .orphans) (hdeleted : s'.deleted = s.deleted)
    (hgen : s'.gen = s.gen) (hgone : s'.gone = s.gone) : Books s' := by
  refine h.pass (write_boxes hrecord hkept hretired horphans hdeleted) hgen hgone ?_
  rw [hrecord, hrecords]
  exact unborn_update h hr x

theorem setList_boxes (s : State) (r : Nat) (kept rest : List Retired) (which : Which) :
    (s.setList r kept rest which).boxes (which.place r) = kept ++ rest ∧
      ∀ b, b ≠ which.place r → (s.setList r kept rest which).boxes b = s.boxes b := by
  cases which with
  | own =>
      refine ⟨?_, fun b hb => ?_⟩
      · show (Function.update s.record r _ r).kept ++ (Function.update s.record r _ r).retired = _
        rw [Function.update_self]
      · cases b with
        | record r' =>
            have hr : r' ≠ r := fun hr => hb (congrArg Place.record hr)
            show (Function.update s.record r _ r').kept ++
              (Function.update s.record r _ r').retired = _
            rw [Function.update_of_ne hr]
            rfl
        | orphans | deleted => rfl
  | orphans =>
      refine ⟨rfl, fun b hb => ?_⟩
      cases b with
      | record | deleted => rfl
      | orphans => exact absurd rfl hb

theorem list_boxes (s : State) (r : Nat) (which : Which) :
    s.boxes (which.place r) = (s.list r which).1 ++ (s.list r which).2 := by
  cases which <;> rfl

theorem setList_unborn (h : Books s) (hr : r < s.records) (kept rest : List Retired) :
    ∀ r', s.records ≤ r' → (s.setList r kept rest which).record r' = .new := by
  cases which with
  | own => exact unborn_update h hr _
  | orphans => exact h.unborn

/-- A reclaim goes through its list without changing what is in it. -/
theorem Books.setList (h : Books s) (hr : r < s.records) {kept rest : List Retired}
    (hsame : kept ++ rest = (s.list r which).1 ++ (s.list r which).2) :
    Books (s.setList r kept rest which) := by
  obtain ⟨hself, hother⟩ := setList_boxes s r kept rest which
  have hboxes : (s.setList r kept rest which).boxes = s.boxes := by
    funext b
    by_cases hb : b = which.place r
    · rw [hb, hself, list_boxes, hsame]
    · exact hother b hb
  have hrest : (s.setList r kept rest which).records = s.records ∧
      (s.setList r kept rest which).gen = s.gen ∧
      (s.setList r kept rest which).gone = s.gone := by
    cases which <;> exact ⟨rfl, rfl, rfl⟩
  refine h.pass hboxes hrest.2.1 hrest.2.2 ?_
  rw [hrest.1]
  exact setList_unborn h hr kept rest

theorem Books.delete (h : Books s) (hr : r < s.records) {x : Retired} {kept rest : List Retired}
    (hlist : s.list r which = (kept, x :: rest)) :
    Books ((s.setList r kept rest which).delete x) := by
  obtain ⟨hself, hother⟩ := setList_boxes s r kept rest which
  have hbox : s.boxes (which.place r) = kept ++ x :: rest := by
    rw [list_boxes, hlist]
  have hplace : which.place r ≠ .deleted := by cases which <;> nofun
  have hin : x ∈ s.boxes (which.place r) := by
    rw [hbox]
    exact List.mem_append_right _ List.mem_cons_self
  obtain ⟨hgen, hgone⟩ := h.waiting _ x hplace hin
  have hdeleted : (s.setList r kept rest which).deleted = s.deleted := by cases which <;> rfl
  have hgens : (s.setList r kept rest which).gen = s.gen := by cases which <;> rfl
  have hgones : (s.setList r kept rest which).gone = s.gone := by cases which <;> rfl
  have hboxes : ∀ b, b ≠ .deleted →
      ((s.setList r kept rest which).delete x).boxes b = (s.setList r kept rest which).boxes b := by
    intro b hb
    cases b with
    | record | orphans => rfl
    | deleted => exact absurd rfl hb
  have hcustody : Custody ((s.setList r kept rest which).delete x).boxes := by
    refine h.custody.move hplace ?_ fun b h₁ h₂ => (hboxes b h₂).trans (hother b h₁)
    rw [hboxes _ hplace, hself, hbox]
    show ((kept ++ rest) ++ x :: (s.setList r kept rest which).deleted).Perm
      ((kept ++ x :: rest) ++ s.deleted)
    rw [hdeleted]
    calc (kept ++ rest) ++ x :: s.deleted
      _ |>.Perm ((x :: (kept ++ rest)) ++ s.deleted) := List.perm_middle
      _ |>.Perm ((kept ++ x :: rest) ++ s.deleted) := List.perm_middle.symm.append_right _
  have hnew : x ∈ ((s.setList r kept rest which).delete x).deleted := List.mem_cons_self
  refine ⟨hcustody, fun b y hb hy => ?_, fun y hy => ?_, ?_⟩
  · have hne : y ≠ x := by
      rintro rfl
      exact hb (hcustody.unique b .deleted y hy hnew)
    have hold : ∃ b', b' ≠ .deleted ∧ y ∈ s.boxes b' := by
      rw [hboxes b hb] at hy
      by_cases hb' : b = which.place r
      · rw [hb', hself] at hy
        refine ⟨_, hplace, ?_⟩
        rw [hbox]
        rcases List.mem_append.mp hy with hy | hy
        · exact List.mem_append_left _ hy
        · exact List.mem_append_right _ (List.mem_cons_of_mem _ hy)
      · rw [hother b hb'] at hy
        exact ⟨b, hb, hy⟩
    obtain ⟨b', hb', hy'⟩ := hold
    obtain ⟨hgen', hgone'⟩ := h.waiting b' y hb' hy'
    -- another entry for the same address would be the same entry
    have hp : y.p ≠ x.p := by
      intro hp
      refine hne ?_
      have hgens : y.gen = x.gen := by rw [hgen', hgen, hp]
      cases y
      cases x
      cases hp
      cases hgens
      rfl
    refine ⟨?_, ?_⟩
    · show y.gen = Function.update (s.setList r kept rest which).gen x.p _ y.p
      rw [Function.update_of_ne hp, hgens]
      exact hgen'
    · show Function.update (s.setList r kept rest which).gone x.p false y.p = true
      rw [Function.update_of_ne hp, hgones]
      exact hgone'
  · have hy' : y = x ∨ y ∈ s.deleted := hdeleted ▸ List.mem_cons.mp hy
    show y.gen < Function.update (s.setList r kept rest which).gen x.p
      ((s.setList r kept rest which).gen x.p + 1) y.p
    rw [hgens]
    by_cases hp : y.p = x.p
    · rw [hp, Function.update_self]
      rcases hy' with rfl | hy'
      · rw [hgen]
        exact Nat.lt_succ_self _
      · have hpast := h.past y hy'
        rw [hp] at hpast
        exact Nat.lt_succ_of_lt hpast
    · rw [Function.update_of_ne hp]
      rcases hy' with rfl | hy'
      · exact absurd rfl hp
      · exact h.past y hy'
  · have hrecords : (s.setList r kept rest which).records = s.records := by cases which <;> rfl
    show ∀ r', (s.setList r kept rest which).records ≤ r' → _
    rw [hrecords]
    exact setList_unborn h hr kept rest

theorem Books.retire (h : Books s) (hr : r < s.records) {p : Nat} (once : s.gone p = false) :
    Books (s.retire r p) := by
  have hnew : ∀ b, ⟨p, s.gen p⟩ ∉ s.boxes b := by
    intro b hin
    by_cases hb : b = .deleted
    · subst hb
      exact Nat.lt_irrefl _ (h.past _ hin)
    · have hgone := (h.waiting b _ hb hin).2
      rw [once] at hgone
      cases hgone
  have hself : (s.retire r p).boxes (.record r) = s.boxes (.record r) ++ [⟨p, s.gen p⟩] := by
    show (Function.update s.record r _ r).kept ++ (Function.update s.record r _ r).retired = _
    rw [Function.update_self]
    exact (List.append_assoc ..).symm
  have hother : ∀ b, b ≠ .record r → (s.retire r p).boxes b = s.boxes b := by
    intro b hb
    cases b with
    | record r' =>
        have hne : r' ≠ r := fun heq => hb (congrArg Place.record heq)
        show (Function.update s.record r _ r').kept ++ (Function.update s.record r _ r').retired = _
        rw [Function.update_of_ne hne]
        rfl
    | orphans | deleted => rfl
  refine ⟨h.custody.add hnew ?_ hother, fun b x hb hx => ?_, h.past, unborn_update h hr _⟩
  · rw [hself]
    exact List.perm_append_singleton _ _
  · have hold : x ∈ s.boxes b ∨ x = ⟨p, s.gen p⟩ := by
      by_cases heq : b = .record r
      · rw [heq, hself, List.mem_append, List.mem_singleton] at hx
        exact heq ▸ hx
      · rw [hother b heq] at hx
        exact .inl hx
    rcases hold with hx | rfl
    · obtain ⟨hgen, hgone⟩ := h.waiting b x hb hx
      refine ⟨hgen, ?_⟩
      show Function.update s.gone p true x.p = true
      by_cases hp : x.p = p
      · rw [hp, Function.update_self]
      · rw [Function.update_of_ne hp]
        exact hgone
    · exact ⟨rfl, Function.update_self ..⟩

theorem Books.orphan (h : Books s) (hr : r < s.records) : Books (s.orphan r) := by
  have hself : (s.orphan r).boxes (.record r) = (s.record r).kept := by
    show (Function.update s.record r _ r).kept ++ (Function.update s.record r _ r).retired = _
    rw [Function.update_self]
    exact List.append_nil _
  have horphans : (s.orphan r).boxes .orphans = s.boxes .orphans ++ (s.record r).retired :=
    (List.append_assoc ..).symm
  have hother : ∀ b, b ≠ .record r → b ≠ .orphans → (s.orphan r).boxes b = s.boxes b := by
    intro b hb hb'
    cases b with
    | record r' =>
        have hne : r' ≠ r := fun heq => hb (congrArg Place.record heq)
        show (Function.update s.record r _ r').kept ++ (Function.update s.record r _ r').retired = _
        rw [Function.update_of_ne hne]
        rfl
    | orphans => exact absurd rfl hb'
    | deleted => rfl
  have hne : Place.record r ≠ .orphans := nofun
  refine ⟨h.custody.move hne ?_ hother, fun b x hb hx => ?_, h.past, unborn_update h hr _⟩
  · rw [hself, horphans]
    show ((s.record r).kept ++ (s.boxes .orphans ++ (s.record r).retired)).Perm
      (((s.record r).kept ++ (s.record r).retired) ++ s.boxes .orphans)
    rw [List.append_assoc]
    exact List.perm_append_comm.append_left _
  · have hold : ∃ b', b' ≠ .deleted ∧ x ∈ s.boxes b' := by
      by_cases heq : b = .record r
      · rw [heq, hself] at hx
        exact ⟨.record r, nofun, List.mem_append_left _ hx⟩
      · by_cases heq' : b = .orphans
        · rw [heq', horphans] at hx
          rcases List.mem_append.mp hx with hx | hx
          · exact ⟨.orphans, nofun, hx⟩
          · exact ⟨.record r, nofun, List.mem_append_right _ hx⟩
        · rw [hother b heq heq'] at hx
          exact ⟨b, hb, hx⟩
    obtain ⟨b', hb', hx'⟩ := hold
    exact h.waiting b' x hb' hx'

theorem step_books (h : Books s) (hrecords : Records s) (hstep : Step s t e s') : Books s' := by
  have hknown : ∀ {t r}, (s.thread t).tls = some r → r < s.records := fun htls =>
    hrecords.known _ (hrecords.bound htls).2
  cases hstep with
  | store a v | acquirePush r pc | acquireCount pc | unlock leaving pc | tryLock leaving pc =>
      exact h.bystander rfl rfl (by funext b; cases b <;> rfl) rfl rfl
  | acquire pc unbound | acquireLook r rest pc | acquireTaken r rest pc used | acquireRetry r l pc
  | protect r a pc bound | protectLoad a pc | protectMiss r a p gen i pc bound more miss
  | protectFull a p gen pc | protectAgain a p i pc changed | protectReturn result pc
  | retireCount r pc bound | scan r pc bound | collect r which leaving hz rest pc
  | collectSlot r i which leaving hz rest pc more | collectNext r which leaving hz rest pc
  | collectEnd which leaving hz pc | tryLockFail leaving pc | release r pc bound
  | releaseNone r pc bound empty =>
      exact h.goto _ _
  | acquireTake r rest pc free =>
      have hr := hrecords.chain r ((hrecords.placed t).trying r rest pc r List.mem_cons_self)
      exact h.write hr rfl rfl rfl rfl rfl rfl rfl rfl
  | acquireNew pc =>
      have hold : s.record s.records = .new := h.unborn _ (Nat.le_refl _)
      refine h.pass ?_ rfl rfl fun r' hle => ?_
      · funext b
        cases b with
        | record r' =>
            show (Function.update s.record s.records _ r').kept ++
              (Function.update s.record s.records _ r').retired =
              (s.record r').kept ++ (s.record r').retired
            by_cases heq : r' = s.records
            · rw [heq, Function.update_self, hold]
            · rw [Function.update_of_ne heq]
        | orphans | deleted => rfl
      · have hle' : s.records < r' := hle
        show Function.update s.record s.records _ r' = .new
        rw [Function.update_of_ne (Nat.ne_of_gt hle')]
        exact h.unborn r' (Nat.le_of_lt hle')
  | protectHit r a p gen i pc bound more hit => exact h.write (hknown bound) rfl rfl rfl rfl rfl rfl rfl rfl
  | protectPublish r a p pc bound => exact h.write (hknown bound) rfl rfl rfl rfl rfl rfl rfl rfl
  | protectValidate r a p i pc bound again => exact h.write (hknown bound) rfl rfl rfl rfl rfl rfl rfl rfl
  | retire r p pc bound once => exact (h.retire (hknown bound) once).goto _ _
  | siftKeep r which leaving hz x kept rest pc bound next hazard =>
      refine h.setList (hknown bound) ?_
      rw [next]
      exact List.append_assoc kept [x] rest
  | siftDelete r which leaving hz x kept rest pc bound next free => exact h.delete (hknown bound) next
  | siftEnd r which leaving hz kept pc bound finished =>
      refine (h.setList (hknown bound) ?_).goto _ _
      rw [finished]
      exact (List.append_nil kept).symm
  | releaseOrphans r pc bound left unlocked => exact (h.orphan (hknown bound)).goto _ _
  | releaseSlot r i pc bound more => exact h.write (hknown bound) rfl rfl rfl rfl rfl rfl rfl rfl
  | releaseRecord r pc bound => exact h.write (hknown bound) rfl rfl rfl rfl rfl rfl rfl rfl

theorem books_of_runs {ok : State → Nat → Event → Prop} (h : Runs ok s) : Books s :=
  h.holds (fun hs => hs ▸ books_new) fun hs ih hstep _ => step_books ih (records_of_runs hs) hstep

end Uvent.Reclaim.Hazard
