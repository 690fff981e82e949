import Uvent.Timers.Invariant
import Mathlib.Logic.Relation

/-!
# The operations as chains of effects

Each call of a client, each operation drained by `tick` and each round of
`processSlot` is a chain of effects, provided the invariant holds before it.
-/

namespace Uvent.Timers

open TimerWheel Relation

variable {policy : Policy} {w w' w'' : TimerWheel} {p : Ptr}

/-! ## Moving timers -/

theorem touch_lateAccess (hp : p ∉ w.released) : (w.touch p).lateAccess = w.lateAccess :=
  if_neg hp

theorem swapPopAt_lateAccess {level slot : Nat} (pos : Nat)
    (h : ∀ q ∈ w.buckets level slot, q ∉ w.released) :
    (w.swapPopAt level slot pos).lateAccess = w.lateAccess := by
  unfold swapPopAt
  dsimp only
  split
  · cases hlast : (w.buckets level slot).getLast? with
    | none => rfl
    | some q => exact touch_lateAccess (h q (List.mem_of_getLast? hlast))
  · rfl

theorem moved_swapPopAt (h : Linked w.buckets w.mem) {level slot pos : Nat}
    (hp : (w.buckets level slot)[pos]? = some p) :
    Moved w (w.swapPopAt level slot pos) p none fun t => t where
  linked := swapPopAt_linked h hp
  buckets level' slot' q := by
    rw [mem_swapPopAt h hp]
    simp
  self := swapPopAt_unplaced ..
  others q _ := swapPopAt_unplaced ..
  late hheld _ := swapPopAt_lateAccess pos fun q hq => hheld q ⟨level, slot, hq⟩

theorem moved_addTimerToWheel (h : Linked w.buckets w.mem) (hp : ¬w.Holds p) (e : Nat) :
    Moved w (w.addTimerToWheel p e) p (some (w.place e)) fun t => t where
  linked := addTimerToWheel_linked h hp e
  buckets level slot q := by
    rw [mem_addTimerToWheel]
    by_cases hq : q = p
    · subst hq
      have hnot : q ∉ w.buckets level slot := fun hmem => hp ⟨level, slot, hmem⟩
      simp [hnot]
    · simp [hq]
  self := addTimerToWheel_unplaced ..
  others q _ := addTimerToWheel_unplaced ..
  late _ hr := touch_lateAccess hr

theorem moved_relink (h : Linked w.buckets w.mem) {level slot : Nat}
    (hp : (w.buckets level slot)[0]? = some p) (e : Nat) :
    Moved w ((w.addTimerToWheel p e).swapPopAt level slot 0) p (some (w.place e))
      fun t => t where
  linked := relink_linked h e hp
  buckets level' slot' q := by
    rw [mem_relink h e hp]
    simp
  self := (swapPopAt_unplaced ..).trans (addTimerToWheel_unplaced ..)
  others q _ := (swapPopAt_unplaced ..).trans (addTimerToWheel_unplaced ..)
  late hheld hr := by
    rw [swapPopAt_lateAccess]
    · exact touch_lateAccess hr
    · intro q hq
      rcases (w.mem_addTimerToWheel p e).mp hq with hold | ⟨rfl, -⟩
      · exact hheld q ⟨level, slot, hold⟩
      · exact hr

/-- A move that starts after the contents of the timer were changed. -/
theorem Moved.of_modified {target : Option (Nat × Nat)} {f g : Timer → Timer}
    (moved : Moved w' w'' p target f) (hb : w'.buckets = w.buckets)
    (hm : w'.mem = Function.update w.mem p (g (w.mem p))) (hr : w'.released = w.released)
    (hlate : p ∉ w.released → w'.lateAccess = w.lateAccess) :
    Moved w w'' p target fun t => f (g t) where
  linked := moved.linked
  buckets level slot q := by
    rw [moved.buckets, hb]
  self := by
    rw [moved.self, hm, Function.update_self]
  others q hq := by
    rw [moved.others q hq, hm, Function.update_of_ne hq]
  late hheld hp := by
    rw [moved.late, hlate hp]
    · intro q hq
      unfold Holds at hq
      rw [hb] at hq
      rw [hr]
      exact hheld q hq
    · rw [hr]
      exact hp

theorem Linked.of_modified (h : Linked w.buckets w.mem) {g : Timer → Timer}
    (hb : w'.buckets = w.buckets) (hm : w'.mem = Function.update w.mem p (g (w.mem p)))
    (hg : (g (w.mem p)).level = (w.mem p).level ∧
      (g (w.mem p)).slotIndex = (w.mem p).slotIndex ∧
      (g (w.mem p)).posInBucket = (w.mem p).posInBucket) : Linked w'.buckets w'.mem := by
  intro level slot pos q hq
  rw [hb] at hq
  rw [hm]
  by_cases hqp : q = p
  · subst hqp
    rw [Function.update_self, hg.1, hg.2.1, hg.2.2]
    exact h level slot pos q hq
  · rw [Function.update_of_ne hqp]
    exact h level slot pos q hq

theorem Moved.trans {target : Option (Nat × Nat)} {f g : Timer → Timer}
    (first : Moved w w' p none f) (second : Moved w' w'' p target g)
    (hg : ∀ t, (g t).unplaced = g t.unplaced) (hr : w'.released = w.released) : Moved w w'' p target fun t => g (f t) where
  linked := second.linked
  buckets level slot q := by
    rw [second.buckets, first.buckets]
    by_cases hq : q = p <;> simp [hq]
  self := by
    rw [second.self, hg, first.self, ← hg]
  others q hq := (second.others q hq).trans (first.others q hq)
  late hheld hp := by
    rw [second.late, first.late hheld hp]
    · intro q hq
      rw [hr]
      rcases (first.holds_iff q).mp hq with ⟨hold, -⟩ | ⟨-, hnone⟩
      · exact hheld q hold
      · exact absurd rfl hnone
    · rw [hr]
      exact hp

/-! ## Building blocks -/

theorem moved_removeTimerFromWheel (h : Linked w.buckets w.mem) (hp : w.Holds p) :
    Moved w (w.removeTimerFromWheel p) p none fun t => t := by
  obtain ⟨level, slot, hmem⟩ := hp
  have hpos := (h.of_mem hmem).2.2.1
  have hmoved := moved_swapPopAt (w := w.touch p) h hpos
  rw [removeTimerFromWheel_eq h hmem]
  refine ⟨hmoved.linked, hmoved.buckets, hmoved.self, hmoved.others, ?_⟩
  intro hheld hr
  exact (hmoved.late hheld hr).trans (touch_lateAccess hr)

theorem removeTimerFromWheel_books (h : Linked w.buckets w.mem) (hp : w.Holds p) :
    (w.removeTimerFromWheel p).books = w.books := by
  obtain ⟨level, slot, hmem⟩ := hp
  rw [removeTimerFromWheel_eq h hmem]
  exact swapPopAt_books (w.touch p) level slot _

theorem swapPopAt_next (w : TimerWheel) (level slot pos : Nat) :
    (w.swapPopAt level slot pos).nextExpiryTime = w.nextExpiryTime ∧
      (w.swapPopAt level slot pos).nextExpiryDirty = w.nextExpiryDirty := by
  unfold swapPopAt
  dsimp only
  split
  · cases (w.buckets level slot).getLast? <;> exact ⟨rfl, rfl⟩
  · exact ⟨rfl, rfl⟩

theorem removeTimerFromWheel_next (h : Linked w.buckets w.mem) (hp : w.Holds p) :
    (w.removeTimerFromWheel p).nextExpiryTime = w.nextExpiryTime ∧
      (w.removeTimerFromWheel p).nextExpiryDirty = soiled w (w.mem p).expiryTime := by
  obtain ⟨level, slot, hmem⟩ := hp
  obtain ⟨hnext, hdirty⟩ := swapPopAt_next (w.touch p) level slot (w.mem p).posInBucket
  rw [removeTimerFromWheel_eq h hmem]
  refine ⟨hnext, ?_⟩
  unfold markDirty soiled
  simp only [hnext, hdirty]
  rfl

theorem linked_deactivate (h : Linked w.buckets w.mem) (p : Ptr) :
    Linked (w.deactivate p).buckets (w.deactivate p).mem :=
  h.of_modified (p := p) (g := fun t => { t with active := false }) rfl rfl ⟨rfl, rfl, rfl⟩

section Unlink

variable {id : Nat} {e : Event}

theorem moved_unlink (h : Inv w) (hp : w.timerMap id = some p) :
    Moved w ((w.touch p).unlink id p) p none fun t => { t with active := false } := by
  have hlinked : Linked ((w.touch p).deactivate p).buckets ((w.touch p).deactivate p).mem :=
    linked_deactivate h.linked p
  have hholds : ((w.touch p).deactivate p).Holds p := (h.held id p hp).2
  have hmoved := moved_removeTimerFromWheel hlinked hholds
  have hfrom : Moved w (((w.touch p).deactivate p).removeTimerFromWheel p) p none
      fun t => { t with active := false } :=
    hmoved.of_modified (g := fun t => { t with active := false }) rfl rfl rfl fun hr => by
      have hfirst := touch_lateAccess (w := w) hr
      have hsecond := touch_lateAccess (w := w.touch p) hr
      exact hsecond.trans hfirst
  exact ⟨hfrom.linked, hfrom.buckets, hfrom.self, hfrom.others, hfrom.late⟩

theorem eraseId_books (w : TimerWheel) (id : Nat) :
    (w.eraseId id).books = { w.books with
      timerMap := Function.update w.timerMap id none,
      activeTimerCount := w.activeTimerCount - 1 } := rfl

theorem unlink_books (h : Inv w) (hp : w.timerMap id = some p) :
    ((w.touch p).unlink id p).books = { w.books with
      timerMap := Function.update w.timerMap id none,
      activeTimerCount := w.activeTimerCount - 1 } := by
  obtain ⟨w₁, hw₁⟩ : ∃ w₁, w₁ = ((w.touch p).deactivate p).removeTimerFromWheel p := ⟨_, rfl⟩
  have hbooks : w₁.books = w.books := by
    have hremoved := removeTimerFromWheel_books (w := (w.touch p).deactivate p)
      (linked_deactivate h.linked p) (h.held id p hp).2
    rw [hw₁, hremoved]
    rfl
  have hmap : w₁.timerMap = w.timerMap := congrArg Books.timerMap hbooks
  have hcount : w₁.activeTimerCount = w.activeTimerCount := congrArg Books.activeTimerCount hbooks
  unfold unlink
  rw [← hw₁, eraseId_books, hbooks, hmap, hcount]

theorem unlink_next (h : Inv w) (hp : w.timerMap id = some p) :
    ((w.touch p).unlink id p).nextExpiryTime = w.nextExpiryTime ∧
      ((w.touch p).unlink id p).nextExpiryDirty = soiled w (w.mem p).expiryTime := by
  obtain ⟨hnext, hdirty⟩ := removeTimerFromWheel_next (w := (w.touch p).deactivate p)
    (linked_deactivate h.linked p) (h.held id p hp).2
  refine ⟨hnext, hdirty.trans ?_⟩
  have hexpiry : (((w.touch p).deactivate p).mem p).expiryTime = (w.mem p).expiryTime := by
    simp [deactivate, modifyTimer, touch]
  rw [hexpiry]
  rfl

theorem unlink_effect (h : Inv w) (hp : w.timerMap id = some p)
    (kind : e = .cancelled id ∨ e = .removed id) :
    Effect policy w (((w.touch p).unlink id p).record e) := by
  have hmoved := moved_unlink h hp
  obtain ⟨hnext, hdirty⟩ := unlink_next h hp
  refine .unlink id p e kind hp
    ⟨hmoved.linked, hmoved.buckets, hmoved.self, hmoved.others, hmoved.late⟩ ?_ hnext hdirty
  exact congrArg (fun b : Books => { b with log := e :: b.log }) (unlink_books h hp)

/-- The same, with the look at the unlinked timer that `dispose` takes. -/
theorem unlink_touch_effect (h : Inv w) (hp : w.timerMap id = some p)
    (kind : e = .cancelled id ∨ e = .removed id) :
    Effect policy w ((((w.touch p).unlink id p).record e).touch p) := by
  have hmoved := moved_unlink h hp
  obtain ⟨hnext, hdirty⟩ := unlink_next h hp
  have hreleased : ((w.touch p).unlink id p).released = w.released :=
    congrArg Books.released (unlink_books h hp)
  refine .unlink id p e kind hp
    ⟨hmoved.linked, hmoved.buckets, hmoved.self, hmoved.others, ?_⟩ ?_ hnext hdirty
  · intro hheld hr
    have hr' : p ∉ (((w.touch p).unlink id p).record e).released := by
      change p ∉ ((w.touch p).unlink id p).released
      rw [hreleased]
      exact hr
    exact (touch_lateAccess hr').trans (hmoved.late hheld hr)
  · exact congrArg (fun b : Books => { b with log := e :: b.log }) (unlink_books h hp)

end Unlink

/-! ## Chains -/

abbrev Effects (policy : Policy) : TimerWheel → TimerWheel → Prop :=
  ReflTransGen (Effect policy)

theorem Inv.effects (h : Inv w) (heffs : Effects policy w w') : Inv w' := by
  induction heffs with
  | refl => exact h
  | tail _ heff ih => exact ih.effect heff

theorem Effects.log_eq (heffs : Effects policy w w') : ∃ l, w'.log = l ++ w.log := by
  induction heffs with
  | refl => exact ⟨[], rfl⟩
  | tail _ heff ih =>
      obtain ⟨l, hl⟩ := ih
      obtain ⟨l', hl'⟩ := heff.log_eq
      exact ⟨l' ++ l, by rw [hl', hl, List.append_assoc]⟩

theorem still_record (w : TimerWheel) (e : Event) : Still w (w.record e) :=
  ⟨rfl, rfl, rfl, rfl, fun _ => rfl⟩

theorem note_effect {e : Event} (he : e.Plain) : Effect policy w (w.record e) :=
  .note e he (still_record w e) rfl

theorem dispose_effects (w : TimerWheel) (c : Option Nat) (heap : Bool) (p : Ptr) :
    Effects policy w ((w.destroyCoro c).deleteIf heap p) := by
  have hcoro : Effects policy w (w.destroyCoro c) := by
    cases c with
    | none => exact .refl
    | some handle => exact .single (note_effect trivial)
  cases heap with
  | false => exact hcoro
  | true => exact hcoro.tail (note_effect trivial)

theorem dispose_same (w : TimerWheel) (p : Ptr) :
    (w.dispose p).timerOperationsQueue = w.timerOperationsQueue ∧
      (w.dispose p).timerMap = w.timerMap ∧ (w.dispose p).maxAddedId = w.maxAddedId := by
  unfold dispose
  cases (w.mem p).coro <;> cases (w.mem p).heap <;> exact ⟨rfl, rfl, rfl⟩

theorem still_release (w : TimerWheel) (id : Nat) : Still w (w.release id) := by
  unfold TimerWheel.release
  cases w.addedAs id with
  | none => exact ⟨rfl, rfl, rfl, rfl, fun _ => rfl⟩
  | some q =>
      dsimp only
      split <;> exact ⟨rfl, rfl, rfl, rfl, fun _ => rfl⟩

theorem release_books (w : TimerWheel) (id : Nat) :
    (w.release id).books = { w.books with released := (w.release id).released } := by
  unfold TimerWheel.release
  cases w.addedAs id with
  | none => rfl
  | some q =>
      dsimp only
      split <;> rfl

theorem release_released (w : TimerWheel) (id : Nat) :
    (w.release id).released = match w.addedAs id with
      | none => w.released
      | some q => if (w.mem q).id = id then insert q w.released else w.released := by
  unfold TimerWheel.release
  cases w.addedAs id with
  | none => rfl
  | some q =>
      dsimp only
      split <;> rfl

theorem release_effect {id : Nat} (unmapped : w.timerMap id = none)
    (gone : id ≤ w.maxAddedId ∨ id ∈ w.detachedPending) : Effect policy w (w.release id) :=
  .release id unmapped gone (still_release w id) (release_books w id)

/-! ## The calls of a client -/

theorem issue_effect {t : Timer} (ok : AddOk w p t) (expiry : Nat) :
    Effect policy w ((w.arm p t).afterReading.issue p expiry) := by
  have hself : ((w.arm p t).mem p).payload = t.payload := by simp [arm]
  apply Effect.add p t expiry ok
  case hmem => simp [issue, arm, afterReading, modifyTimer, touch, enqueueOp, record]
  case late =>
    have hlate := touch_lateAccess (w := w.arm p t) (Finset.notMem_erase p w.released)
    dsimp only [issue, afterReading, modifyTimer, touch, enqueueOp, record] at hlate ⊢
    exact hlate
  case books =>
    dsimp only [issue, afterReading, modifyTimer, touch, enqueueOp, record, books]
    rw [hself]
    dsimp only [arm]
  all_goals
    dsimp only [issue, arm, afterReading, modifyTimer, touch, enqueueOp, record]

theorem addTimer_effect (clock : Clock) {t : Timer} (ok : AddOk w p t) :
    Effect policy w ((w.arm p t).addTimer clock p).2 :=
  issue_effect ok _

theorem updateTimer_effect (id newDur : Nat) : Effect policy w (w.updateTimer id newDur) :=
  .update id newDur ⟨rfl, rfl, rfl, rfl, fun _ => rfl⟩ rfl

theorem removeTimer_effect {id : Nat} (done : Option (Nat × Nat)) (ok : policy.remove w id) :
    Effect policy w (w.removeTimer id done) :=
  .remove id done ok ⟨rfl, rfl, rfl, rfl, fun _ => rfl⟩ rfl

theorem Inv.timerMap_zero (h : Inv w) : w.timerMap 0 = none := by
  by_contra hne
  obtain ⟨q, hq⟩ := Option.ne_none_iff_exists'.mp hne
  exact absurd (h.mapped 0 q hq).1 (lt_irrefl 0)

theorem Inv.active_of_mapped (h : Inv w) {id : Nat} (hp : w.timerMap id = some p) :
    (w.mem p).active = true :=
  (h.known p (h.held id p hp).2).1

theorem unlink_unmaps (h : Inv w) {id : Nat} (hp : w.timerMap id = some p) (e : Event) :
    (((w.touch p).unlink id p).record e).timerMap id = none ∧
      id ≤ (((w.touch p).unlink id p).record e).maxAddedId := by
  have hbooks := unlink_books h hp
  have hmap : ((w.touch p).unlink id p).timerMap = Function.update w.timerMap id none :=
    congrArg Books.timerMap hbooks
  have hmax : ((w.touch p).unlink id p).maxAddedId = w.maxAddedId :=
    congrArg Books.maxAddedId hbooks
  change ((w.touch p).unlink id p).timerMap id = none ∧ id ≤ ((w.touch p).unlink id p).maxAddedId
  rw [hmap, hmax, Function.update_self]
  exact ⟨rfl, (h.mapped id p hp).2⟩

theorem unlink_dispose_effects (h : Inv w) {id : Nat} {e : Event}
    (hp : w.timerMap id = some p) (kind : e = .cancelled id ∨ e = .removed id) :
    Effects policy w ((((w.touch p).unlink id p).record e).dispose p) :=
  (ReflTransGen.single (unlink_touch_effect h hp kind)).trans (dispose_effects _ _ _ _)

theorem cancelTimer_effects (h : Inv w) {id : Nat} (ok : policy.cancel w id) :
    Effects policy w (w.cancelTimer id).2 := by
  unfold cancelTimer
  by_cases hid : id = 0
  · rw [if_pos hid]
    subst hid
    exact .single (.refused 0 h.timerMap_zero (.inl rfl) (still_record ..) rfl)
  rw [if_neg hid]
  cases hp : w.timerMap id with
  | none =>
      dsimp only
      by_cases hnew : id > w.maxAddedId
      · rw [if_pos hnew]
        obtain ⟨w₁, hw₁⟩ : ∃ w₁, w₁ = (w.markCancelled id).record (.cancelled id) := ⟨_, rfl⟩
        rw [← hw₁]
        have hreleased : (w₁.release id).released = (w.release id).released := by
          rw [hw₁, release_released, release_released]
          rfl
        refine .single (.pendCancel id ok hid hp hnew ?_ ?_)
        · split
          · have hstill := still_release w₁ id
            rw [hw₁] at hstill ⊢
            exact ⟨hstill.buckets, hstill.mem, hstill.next, hstill.dirty, hstill.late⟩
          · rw [hw₁]
            exact ⟨rfl, rfl, rfl, rfl, fun _ => rfl⟩
        · split
          · rw [release_books w₁, hreleased, hw₁]
            rfl
          · rw [hw₁]
            rfl
      · rw [if_neg hnew]
        exact .single (.refused id hp (.inr (by omega)) (still_record ..) rfl)
  | some p =>
      dsimp only
      rw [if_pos (h.active_of_mapped hp)]
      have hdone : Effects policy w _ :=
        unlink_dispose_effects h hp (e := .cancelled id) (.inl rfl)
      cases hheap : (w.mem p).heap with
      | true => exact hdone
      | false =>
          obtain ⟨hunmapped, hold⟩ := unlink_unmaps h hp (.cancelled id)
          obtain ⟨-, hmap, hmax⟩ := dispose_same (((w.touch p).unlink id p).record (.cancelled id)) p
          refine hdone.tail (release_effect ?_ (.inl ?_))
          · rw [hmap]
            exact hunmapped
          · rw [hmax]
            exact hold

theorem cancelTimerDetach_effects (h : Inv w) {id : Nat} (ok : policy.detach w id) :
    Effects policy w (w.cancelTimerDetach id).2 := by
  unfold cancelTimerDetach
  by_cases hid : id = 0
  · rw [if_pos hid]
    subst hid
    exact .single (.refused 0 h.timerMap_zero (.inl rfl) (still_record ..) rfl)
  rw [if_neg hid]
  cases hp : w.timerMap id with
  | none =>
      dsimp only
      by_cases hnew : id > w.maxAddedId
      · rw [if_pos hnew]
        have hpend : Effect policy w ((w.markDetached id).record (.cancelled id)) :=
          .pendDetach id ok hid hp hnew ⟨rfl, rfl, rfl, rfl, fun _ => rfl⟩ rfl
        refine (ReflTransGen.single hpend).tail (release_effect hp (.inr ?_))
        exact Finset.mem_insert_self _ _
      · rw [if_neg hnew]
        exact .single (.refused id hp (.inr (by omega)) (still_record ..) rfl)
  | some p =>
      dsimp only
      rw [if_pos (h.active_of_mapped hp)]
      have hunlink : Effect policy w _ := unlink_effect h hp (e := .cancelled id) (.inl rfl)
      obtain ⟨hunmapped, hold⟩ := unlink_unmaps h hp (.cancelled id)
      exact (ReflTransGen.single hunlink).tail (release_effect hunmapped (.inl hold))

/-! ## Draining -/

section Drain

variable {rest : List Op} {id : Nat}

theorem raiseMax_maxAddedId (w : TimerWheel) (id : Nat) :
    (w.raiseMax id).maxAddedId = max w.maxAddedId id := by
  dsimp only [raiseMax]
  split <;> omega

theorem raiseMax_books (w : TimerWheel) (id : Nat) :
    (w.raiseMax id).books = { w.books with maxAddedId := max w.maxAddedId id } := by
  rw [← raiseMax_maxAddedId]
  rfl

theorem accept_books (w : TimerWheel) (p : Ptr) :
    (w.accept p).books = { w.books with
      timerMap := Function.update w.timerMap (w.mem p).id (some p),
      activeTimerCount := w.activeTimerCount + 1,
      log := .drained (w.mem p).id (w.mem p).expiryTime w.currentTime :: w.log } := by
  unfold accept
  rfl

theorem accept_moved (hlinked : Linked w.buckets w.mem) (hnot : ¬w.Holds p) :
    Moved w (w.accept p) p (some (w.place (w.mem p).expiryTime)) fun t => t := by
  have hmoved := moved_addTimerToWheel (w := w.touch p) hlinked hnot (w.mem p).expiryTime
  refine ⟨hmoved.linked, hmoved.buckets, hmoved.self, hmoved.others, fun _ hr => ?_⟩
  exact (touch_lateAccess (w := w.touch p) hr).trans (touch_lateAccess hr)

theorem applyAdd_effects (h : Inv w) (head : w.timerOperationsQueue = .add p id :: rest) :
    Effects policy w ({ w with timerOperationsQueue := rest }.applyAdd p id) ∧
      ({ w with timerOperationsQueue := rest }.applyAdd p id).timerOperationsQueue = rest := by
  obtain ⟨w₁, hw₁⟩ : ∃ w₁, w₁ = { w with timerOperationsQueue := rest }.raiseMax id := ⟨_, rfl⟩
  have hbooks₁ : w₁.books = { w.books with
      timerOperationsQueue := rest, maxAddedId := max w.maxAddedId id } := by
    rw [hw₁]
    exact raiseMax_books _ id
  have hb₁ : w₁.buckets = w.buckets := by rw [hw₁]; rfl
  have hm₁ : w₁.mem = w.mem := by rw [hw₁]; rfl
  have hn₁ : w₁.nextExpiryTime = w.nextExpiryTime := by rw [hw₁]; rfl
  have hd₁ : w₁.nextExpiryDirty = w.nextExpiryDirty := by rw [hw₁]; rfl
  have hl₁ : w₁.lateAccess = w.lateAccess := by rw [hw₁]; rfl
  have hdet₁ : w₁.detachedPending = w.detachedPending := by rw [hw₁]; rfl
  have hcan₁ : w₁.cancelledPending = w.cancelledPending := by rw [hw₁]; rfl
  have hrel₁ : w₁.released = w.released := by rw [hw₁]; rfl
  have hcur₁ : w₁.currentTime = w.currentTime := by rw [hw₁]; rfl
  unfold applyAdd
  rw [← hw₁]
  by_cases hdet : id ∈ w.detachedPending
  · rw [if_pos (by rw [hdet₁]; exact hdet)]
    refine ⟨.single (.dropDetached p id rest head hdet ⟨hb₁, hm₁, hn₁, hd₁, fun _ => hl₁⟩ ?_), ?_⟩
    · rw [hdet₁]
      exact congrArg (fun b : Books => { b with
        detachedPending := w.detachedPending.erase id }) hbooks₁
    · exact congrArg Books.timerOperationsQueue hbooks₁
  rw [if_neg (by rw [hdet₁]; exact hdet)]
  by_cases hcan : id ∈ w.cancelledPending
  · rw [if_pos (by rw [hcan₁]; exact hcan)]
    obtain ⟨w₂, hw₂⟩ :
        ∃ w₂, w₂ = { w₁ with cancelledPending := w₁.cancelledPending.erase id } := ⟨_, rfl⟩
    rw [← hw₂]
    have hbooks₂ : w₂.books = { w.books with
        timerOperationsQueue := rest, maxAddedId := max w.maxAddedId id,
        cancelledPending := w.cancelledPending.erase id } := by
      rw [hw₂, hcan₁]
      exact congrArg (fun b : Books => { b with
        cancelledPending := w.cancelledPending.erase id }) hbooks₁
    have hrel₂ : w₂.released = w.released := congrArg Books.released hbooks₂
    have hdrop : Effect policy w (w₂.touch p) := by
      refine .dropCancelled p id rest head hdet hcan ?_ ?_ hbooks₂ ?_ ?_ ?_
      · rw [hw₂]; exact hb₁
      · rw [hw₂]; exact hm₁
      · rw [hw₂]; exact hn₁
      · rw [hw₂]; exact hd₁
      · intro hr
        rw [touch_lateAccess (by rw [hrel₂]; exact hr), hw₂]
        exact hl₁
    refine ⟨(ReflTransGen.single hdrop).trans (dispose_effects _ _ _ _), ?_⟩
    rw [(dispose_same w₂ p).1]
    exact congrArg Books.timerOperationsQueue hbooks₂
  · rw [if_neg (by rw [hcan₁]; exact hcan)]
    have hmem : Op.add p id ∈ w.timerOperationsQueue := by rw [head]; exact List.mem_cons_self
    obtain ⟨-, -, hnot⟩ := h.live p id hmem hcan hdet
    have hlinked : Linked (w₁.touch p).buckets (w₁.touch p).mem := by
      change Linked w₁.buckets w₁.mem
      rw [hb₁, hm₁]
      exact h.linked
    have hnot' : ¬(w₁.touch p).Holds p := by
      change ¬∃ level slot, p ∈ w₁.buckets level slot
      rw [hb₁]
      exact hnot
    have hplace : (w₁.touch p).place (w.mem p).expiryTime = w.place (w.mem p).expiryTime := by
      change w₁.place _ = _
      unfold place
      rw [hcur₁]
    have hmoved := moved_addTimerToWheel hlinked hnot' (w.mem p).expiryTime
    rw [hplace] at hmoved
    have hself : w₁.mem p = w.mem p := by rw [hm₁]
    unfold accept
    rw [hself, hcur₁]
    refine ⟨.single (.accept p id rest head hdet hcan
      ⟨hmoved.linked, ?_, ?_, ?_, ?_⟩ ?_ ?_ hd₁), ?_⟩
    · intro level slot q
      refine (hmoved.buckets level slot q).trans ?_
      change (q ∈ w₁.buckets level slot ∧ _) ∨ _ ↔ _
      rw [hb₁]
    · exact hmoved.self.trans (by change (w₁.mem p).unplaced = _; rw [hm₁])
    · intro q hq
      exact (hmoved.others q hq).trans (by change (w₁.mem q).unplaced = _; rw [hm₁])
    · intro hheld hr
      have hr' : p ∉ w₁.released := by rw [hrel₁]; exact hr
      have hfirst : (w₁.touch p).lateAccess = w.lateAccess := (touch_lateAccess hr').trans hl₁
      exact (touch_lateAccess (w := w₁.touch p) hr').trans hfirst
    · have hmap : w₁.timerMap = w.timerMap := congrArg Books.timerMap hbooks₁
      have hcount : w₁.activeTimerCount = w.activeTimerCount :=
        congrArg Books.activeTimerCount hbooks₁
      have hlog : w₁.log = w.log := congrArg Books.log hbooks₁
      rw [← hmap, ← hcount, ← hlog]
      exact congrArg (fun b : Books => { b with
        timerMap := Function.update w₁.timerMap (w.mem p).id (some p),
        activeTimerCount := w₁.activeTimerCount + 1,
        log := .drained (w.mem p).id (w.mem p).expiryTime w.currentTime :: w₁.log }) hbooks₁
    · change lowered w₁.nextExpiryTime _ = _
      rw [hn₁]
    · exact congrArg Books.timerOperationsQueue hbooks₁

theorem pop_effect {op : Op} (head : w.timerOperationsQueue = op :: rest)
    (other : ∀ q x, op ≠ .add q x) : Effect policy w { w with timerOperationsQueue := rest } :=
  .pop op rest head other ⟨rfl, rfl, rfl, rfl, fun _ => rfl⟩ rfl

theorem rearm_books (h : Inv w) (hp : w.timerMap id = some p) (newDur expiry : Nat) :
    ((w.touch p).rearm id p newDur expiry).books =
      { w.books with log := .drained id expiry w.currentTime :: w.log } := by
  have hbooks : ((w.touch p).removeTimerFromWheel p).books = w.books :=
    removeTimerFromWheel_books (w := w.touch p) h.linked (h.held id p hp).2
  generalize hw₁ : (w.touch p).removeTimerFromWheel p = w₁ at hbooks
  have hrearm : ((w.touch p).rearm id p newDur expiry).books =
      { w₁.books with log := .drained id expiry w₁.currentTime :: w₁.log } := by
    unfold TimerWheel.rearm
    rw [hw₁]
    dsimp only [afterReading, modifyTimer, touch, addTimerToWheel, record, books]
  rw [hrearm]
  exact congrArg (fun b : Books => { b with
    log := .drained id expiry b.currentTime :: b.log }) hbooks

theorem rearm_effect (h : Inv w) (hp : w.timerMap id = some p) (newDur expiry : Nat) :
    Effect policy w ((w.touch p).rearm id p newDur expiry) := by
  obtain ⟨w₁, hw₁⟩ : ∃ w₁, w₁ = (w.touch p).removeTimerFromWheel p := ⟨_, rfl⟩
  obtain ⟨w₂, hw₂⟩ : ∃ w₂, w₂ = w₁.afterReading.modifyTimer p fun t =>
    { t with durationMs := newDur, expiryTime := expiry } := ⟨_, rfl⟩
  have hlinked : Linked (w.touch p).buckets (w.touch p).mem := h.linked
  have hholds : (w.touch p).Holds p := (h.held id p hp).2
  have hout : Moved (w.touch p) w₁ p none fun t => t := by
    rw [hw₁]
    exact moved_removeTimerFromWheel hlinked hholds
  have hbooks₁ : w₁.books = w.books := by
    rw [hw₁]
    exact removeTimerFromWheel_books hlinked hholds
  have hnext₁ : w₁.nextExpiryTime = w.nextExpiryTime ∧
      w₁.nextExpiryDirty = soiled w (w.mem p).expiryTime := by
    rw [hw₁]
    exact removeTimerFromWheel_next hlinked hholds
  have hbooks₂ : w₂.books = w.books := by
    rw [hw₂]
    exact hbooks₁
  have hnot₁ : ¬w₁.Holds p := by
    rw [hout.holds_iff]
    simp
  have hnot₂ : ¬w₂.Holds p := by
    rw [hw₂]
    exact hnot₁
  have hlinked₂ : Linked w₂.buckets w₂.mem := by
    refine hout.linked.of_modified (p := p)
      (g := fun t => { t with durationMs := newDur, expiryTime := expiry }) ?_ ?_ ⟨rfl, rfl, rfl⟩
    · rw [hw₂]; rfl
    · rw [hw₂]; rfl
  have hin : Moved w₂ (w₂.addTimerToWheel p expiry) p (some (w₂.place expiry)) fun t => t :=
    moved_addTimerToWheel hlinked₂ hnot₂ expiry
  have hplace : w₂.place expiry = w.place expiry := by
    unfold place
    rw [show w₂.currentTime = w.currentTime from congrArg Books.currentTime hbooks₂]
  rw [hplace] at hin
  -- the contents change between the two moves
  have hin₁ : Moved w₁ (w₂.addTimerToWheel p expiry) p (some (w.place expiry))
      fun t => { t with durationMs := newDur, expiryTime := expiry } := by
    refine hin.of_modified (g := fun t => { t with durationMs := newDur, expiryTime := expiry })
      ?_ ?_ ?_ ?_
    · rw [hw₂]; rfl
    · rw [hw₂]; rfl
    · rw [hw₂]; rfl
    · intro hr
      rw [hw₂]
      exact touch_lateAccess (w := w₁.afterReading) hr
  have hreleased : w₁.released = (w.touch p).released := congrArg Books.released hbooks₁
  have hmoved := hout.trans hin₁ (fun _ => rfl) hreleased
  refine .rearm id p newDur expiry hp ?_ (rearm_books h hp newDur expiry) ?_ ?_
  all_goals
    unfold TimerWheel.rearm
    rw [← hw₁, ← hw₂]
  · refine ⟨hmoved.linked, hmoved.buckets, hmoved.self, hmoved.others, ?_⟩
    intro hheld hr
    exact (hmoved.late hheld hr).trans (touch_lateAccess hr)
  · change lowered w₂.nextExpiryTime expiry = _
    rw [show w₂.nextExpiryTime = w₁.nextExpiryTime by rw [hw₂]; rfl, hnext₁.1]
  · change w₂.nextExpiryDirty = _
    rw [show w₂.nextExpiryDirty = w₁.nextExpiryDirty by rw [hw₂]; rfl, hnext₁.2]

theorem applyUpdate_effects (clock : Clock) (h : Inv w) (newDur : Nat) :
    Effects policy w (w.applyUpdate clock id newDur) := by
  unfold applyUpdate
  cases hp : w.timerMap id with
  | none => exact .refl
  | some p =>
      dsimp only
      rw [if_pos (h.active_of_mapped hp)]
      exact .single (rearm_effect h hp newDur _)

theorem applyUpdate_queue (clock : Clock) (h : Inv w) (newDur : Nat) :
    (w.applyUpdate clock id newDur).timerOperationsQueue = w.timerOperationsQueue := by
  unfold applyUpdate
  cases hp : w.timerMap id with
  | none => rfl
  | some p =>
      dsimp only
      rw [if_pos (h.active_of_mapped hp)]
      generalize (w.now clock + newDur) % 2 ^ 64 = expiry
      exact congrArg Books.timerOperationsQueue (rearm_books h hp newDur expiry)

theorem applyDone_effects {done : Option (Nat × Nat)} (unmapped : w.timerMap id = none)
    (old : id ≤ w.maxAddedId) : Effects policy w (w.applyDone id done) := by
  cases done with
  | none => exact .refl
  | some call =>
      have hnote : Effect policy w (w.record (.called call.1 call.2)) := note_effect trivial
      exact (ReflTransGen.single hnote).tail (release_effect unmapped (.inl old))

theorem applyDone_fields (w : TimerWheel) (id : Nat) (done : Option (Nat × Nat)) :
    Still w (w.applyDone id done) ∧ ∃ plain released, (∀ e ∈ plain, Event.Plain e) ∧
      (w.applyDone id done).books =
        { w.books with released := released, log := plain ++ w.log } := by
  cases done with
  | none => exact ⟨⟨rfl, rfl, rfl, rfl, fun _ => rfl⟩, [], w.released, by simp, rfl⟩
  | some call =>
      obtain ⟨fn, arg⟩ := call
      have hplain : ∀ e ∈ [Event.called fn arg], e.Plain := by
        intro e he
        rw [List.mem_singleton] at he
        rw [he]
        trivial
      have hdone : w.applyDone id (some (fn, arg)) =
          (w.record (.called fn arg)).release id := rfl
      rw [hdone]
      unfold TimerWheel.release
      cases ((w.record (.called fn arg)).addedAs id) with
      | none => exact ⟨⟨rfl, rfl, rfl, rfl, fun _ => rfl⟩, _, w.released, hplain, rfl⟩
      | some q =>
          dsimp only
          split
          · exact ⟨⟨rfl, rfl, rfl, rfl, fun _ => rfl⟩, _, _, hplain, rfl⟩
          · exact ⟨⟨rfl, rfl, rfl, rfl, fun _ => rfl⟩, _, w.released, hplain, rfl⟩

theorem applyRemove_effects (h : Inv w) {done : Option (Nat × Nat)}
    (head : w.timerOperationsQueue = .remove id done :: rest) :
    Effects policy w (({ w with timerOperationsQueue := rest }.applyRemove id).applyDone id done) := by
  have hpop : Effect policy w _ := pop_effect head (by simp)
  obtain ⟨w₁, hw₁⟩ : ∃ w₁, w₁ = { w with timerOperationsQueue := rest } := ⟨_, rfl⟩
  rw [← hw₁] at hpop ⊢
  have h₁ : Inv w₁ := h.effect hpop
  unfold applyRemove
  cases hp : w₁.timerMap id with
  | some p =>
      dsimp only
      rw [if_pos (h₁.active_of_mapped hp)]
      have hdispose : Effects policy w₁ _ :=
        unlink_dispose_effects h₁ hp (e := .removed id) (.inr rfl)
      obtain ⟨hunmapped, hold⟩ := unlink_unmaps h₁ hp (.removed id)
      obtain ⟨-, hmap, hmax⟩ := dispose_same (((w₁.touch p).unlink id p).record (.removed id)) p
      refine ((ReflTransGen.single hpop).trans hdispose).trans (applyDone_effects ?_ ?_)
      · rw [hmap]
        exact hunmapped
      · rw [hmax]
        exact hold
  | none =>
      dsimp only
      by_cases hnew : id > w₁.maxAddedId
      · rw [if_pos hnew]
        obtain ⟨hstill, plain, released, hplain, hbooks⟩ :=
          applyDone_fields ((w₁.markCancelled id).record (.removed id)) id done
        rw [hw₁] at hp hnew
        refine .single (.pendRemove id done rest plain released hplain head hp hnew ?_ ?_)
        · exact ⟨hstill.buckets.trans (by rw [hw₁]; rfl), hstill.mem.trans (by rw [hw₁]; rfl),
            hstill.next.trans (by rw [hw₁]; rfl), hstill.dirty.trans (by rw [hw₁]; rfl),
            fun hheld => (hstill.late (by rw [hw₁]; exact hheld)).trans (by rw [hw₁]; rfl)⟩
        · rw [hbooks, hw₁]
          rfl
      · rw [if_neg hnew]
        exact (ReflTransGen.single hpop).trans (applyDone_effects hp (by omega))

theorem applyRemove_queue (h : Inv w) (done : Option (Nat × Nat)) :
    ((w.applyRemove id).applyDone id done).timerOperationsQueue = w.timerOperationsQueue := by
  obtain ⟨-, plain, released, -, hbooks⟩ := applyDone_fields (w.applyRemove id) id done
  have hdone : ((w.applyRemove id).applyDone id done).timerOperationsQueue =
      (w.applyRemove id).timerOperationsQueue := congrArg Books.timerOperationsQueue hbooks
  rw [hdone]
  unfold applyRemove
  cases hp : w.timerMap id with
  | some p =>
      dsimp only
      rw [if_pos (h.active_of_mapped hp), (dispose_same _ p).1]
      exact congrArg Books.timerOperationsQueue (unlink_books h hp)
  | none =>
      dsimp only
      split <;> rfl

theorem applyOp_effects (policy : Policy) (clock : Clock) (h : Inv w) {op : Op}
    (head : w.timerOperationsQueue = op :: rest) :
    Effects policy w ({ w with timerOperationsQueue := rest }.applyOp clock op) ∧
      ({ w with timerOperationsQueue := rest }.applyOp clock op).timerOperationsQueue = rest := by
  cases op with
  | add p id => exact applyAdd_effects h head
  | update id newDur =>
      have hpop : Effect policy w _ := pop_effect head (by simp)
      have h₁ := h.effect hpop
      exact ⟨(ReflTransGen.single hpop).trans (applyUpdate_effects clock h₁ newDur),
        applyUpdate_queue clock h₁ newDur⟩
  | remove id done =>
      have hpop : Effect policy w _ := pop_effect head (by simp)
      have h₁ := h.effect hpop
      exact ⟨applyRemove_effects h head, applyRemove_queue h₁ done⟩

theorem drainLoop_effects (clock : Clock) (ops : List Op) :
    ∀ {w : TimerWheel}, Inv w → w.timerOperationsQueue = ops →
      Effects policy w (drainLoop clock ops w) := by
  induction ops with
  | nil => intro w _ _; exact .refl
  | cons op ops ih =>
      intro w h hqueue
      obtain ⟨heffs, hrest⟩ := applyOp_effects policy clock h hqueue
      exact heffs.trans (ih (h.effects heffs) hrest)

theorem drainOps_effects (clock : Clock) (h : Inv w) : Effects policy w (w.drainOps clock) :=
  drainLoop_effects clock _ h rfl

end Drain

/-! ## Advancing -/

theorem swapPopAt_deleteIf (w : TimerWheel) (level slot pos : Nat) (heap : Bool) (p : Ptr) :
    (w.deleteIf heap p).swapPopAt level slot pos =
      (w.swapPopAt level slot pos).deleteIf heap p := by
  cases heap with
  | false => rfl
  | true =>
      change (w.record (.deleted p)).swapPopAt level slot pos =
        (w.swapPopAt level slot pos).record (.deleted p)
      unfold swapPopAt
      dsimp only [record]
      split
      · cases (w.buckets level slot).getLast? <;> rfl
      · rfl

theorem deleteIf_effects (w : TimerWheel) (heap : Bool) (p : Ptr) :
    Effects policy w (w.deleteIf heap p) := by
  cases heap with
  | false => exact .refl
  | true => exact .single (note_effect trivial)

/-- The state of `fire` before the timer is deleted. -/
def fired (w : TimerWheel) (p : Ptr) : TimerWheel :=
  ((((w.handOver (w.mem p).payload).record
    (.fired (w.mem p).id w.currentTime (w.mem p).payload)).deactivate p).eraseId
      (w.mem p).id).markDirty (w.mem p).expiryTime

theorem fire_eq (w : TimerWheel) (p : Ptr) :
    w.fire p = (fired w p).deleteIf (w.mem p).heap p := rfl

theorem fired_fields (w : TimerWheel) (p : Ptr) :
    (fired w p).buckets = w.buckets ∧
      (fired w p).mem = Function.update w.mem p { w.mem p with active := false } ∧
      (fired w p).nextExpiryTime = w.nextExpiryTime ∧
      (fired w p).nextExpiryDirty = soiled w (w.mem p).expiryTime ∧
      (p ∉ w.released → (fired w p).lateAccess = w.lateAccess) ∧
      (fired w p).books = { w.books with
        timerMap := Function.update w.timerMap (w.mem p).id none,
        activeTimerCount := w.activeTimerCount - 1,
        log := .fired (w.mem p).id w.currentTime (w.mem p).payload :: w.log } := by
  unfold fired
  cases (w.mem p).payload
  all_goals
    refine ⟨?_, ?_, ?_, ?_, ?_, ?_⟩
    case refine_5 =>
      intro hr
      dsimp only [handOver, record, deactivate, modifyTimer, touch, eraseId, markDirty]
      rw [if_neg hr]
    all_goals
      dsimp only [handOver, record, deactivate, modifyTimer, touch, eraseId, markDirty, books,
        soiled]

section Round

variable {level slot : Nat} {tail : List Ptr}

def popFired (w : TimerWheel) (level slot : Nat) (p : Ptr) : TimerWheel :=
  (fired (w.touch p) p).swapPopAt level slot 0

theorem first_of_bucket (hbucket : w.buckets level slot = p :: tail) :
    (w.buckets level slot)[0]? = some p := by
  rw [hbucket]
  rfl

theorem holds_of_bucket (hbucket : w.buckets level slot = p :: tail) : w.Holds p :=
  ⟨level, slot, List.mem_of_getElem? (first_of_bucket hbucket)⟩

theorem round_due (h : Inv w) (hbucket : w.buckets level slot = p :: tail)
    (hdue : (w.mem p).expiryTime ≤ w.currentTime) :
    (w.visit p).swapPopAt level slot 0 = (popFired w level slot p).deleteIf (w.mem p).heap p := by
  unfold visit popFired
  rw [if_pos (h.known p (holds_of_bucket hbucket)).1, if_pos hdue, fire_eq, swapPopAt_deleteIf]
  rfl

theorem round_early (h : Inv w) (hbucket : w.buckets level slot = p :: tail)
    (hearly : w.currentTime < (w.mem p).expiryTime) :
    (w.visit p).swapPopAt level slot 0 =
      ((w.touch p).addTimerToWheel p (w.mem p).expiryTime).swapPopAt level slot 0 := by
  unfold visit
  rw [if_pos (h.known p (holds_of_bucket hbucket)).1, if_neg (by omega)]

theorem popFired_fields (h : Inv w) (hbucket : w.buckets level slot = p :: tail) :
    Moved w (popFired w level slot p) p none (fun t => { t with active := false }) ∧
      (popFired w level slot p).books = { w.books with
        timerMap := Function.update w.timerMap (w.mem p).id none,
        activeTimerCount := w.activeTimerCount - 1,
        log := .fired (w.mem p).id w.currentTime (w.mem p).payload :: w.log } ∧
      (popFired w level slot p).nextExpiryTime = w.nextExpiryTime ∧
      (popFired w level slot p).nextExpiryDirty = soiled w (w.mem p).expiryTime := by
  obtain ⟨hb, hm, hnext, hdirty, hlate, hbooks⟩ := fired_fields (w.touch p) p
  have hlinked : Linked (fired (w.touch p) p).buckets (fired (w.touch p) p).mem :=
    h.linked.of_modified (g := fun t => { t with active := false }) hb hm ⟨rfl, rfl, rfl⟩
  have hfirst : ((fired (w.touch p) p).buckets level slot)[0]? = some p := by
    rw [hb]
    exact first_of_bucket hbucket
  have hmoved := (moved_swapPopAt hlinked hfirst).of_modified
    (w := w) (g := fun t => { t with active := false }) hb hm
    (congrArg Books.released hbooks)
    (fun hr => (hlate hr).trans (touch_lateAccess hr))
  obtain ⟨hnext', hdirty'⟩ := swapPopAt_next (fired (w.touch p) p) level slot 0
  exact ⟨hmoved, (swapPopAt_books ..).trans hbooks, hnext'.trans hnext, hdirty'.trans hdirty⟩

theorem relinked_fields (h : Inv w) (hbucket : w.buckets level slot = p :: tail) :
    Moved w (((w.touch p).addTimerToWheel p (w.mem p).expiryTime).swapPopAt level slot 0) p
        (some (w.place (w.mem p).expiryTime)) (fun t => t) ∧
      (((w.touch p).addTimerToWheel p (w.mem p).expiryTime).swapPopAt level slot 0).books =
        w.books := by
  have hmoved := moved_relink (w := w.touch p) h.linked (first_of_bucket hbucket)
    (w.mem p).expiryTime
  refine ⟨⟨hmoved.linked, hmoved.buckets, hmoved.self, hmoved.others, ?_⟩, ?_⟩
  · intro hheld hr
    exact (hmoved.late hheld hr).trans (touch_lateAccess hr)
  · exact (swapPopAt_books ..).trans (addTimerToWheel_books (w.touch p) p _)

/-- One round of `processSlot`: the timer at the front fires or moves on. -/
theorem round_effects (adv : policy.advancing) (h : Inv w)
    (hbucket : w.buckets level slot = p :: tail) :
    Effects policy w ((w.visit p).swapPopAt level slot 0) := by
  have hholds := holds_of_bucket hbucket
  rcases Nat.lt_or_ge w.currentTime (w.mem p).expiryTime with hearly | hdue
  · rw [round_early h hbucket hearly]
    obtain ⟨hmoved, hbooks⟩ := relinked_fields h hbucket
    obtain ⟨hnext, hdirty⟩ := swapPopAt_next
      ((w.touch p).addTimerToWheel p (w.mem p).expiryTime) level slot 0
    exact .single (.relink p adv hholds hearly hmoved hbooks hnext hdirty)
  · rw [round_due h hbucket hdue]
    obtain ⟨hmoved, hbooks, hnext, hdirty⟩ := popFired_fields h hbucket
    have hfire : Effect policy w (popFired w level slot p) :=
      .fire p adv hholds hdue hmoved hbooks hnext hdirty
    exact (ReflTransGen.single hfire).trans (deleteIf_effects ..)

end Round

theorem processSlot_effects (adv : policy.advancing) {level slot : Nat} (fuel : Nat) :
    ∀ {w w' : TimerWheel}, Inv w → processSlot level slot fuel w = some w' →
      Effects policy w w' := by
  induction fuel with
  | zero => intro w w' _ hrun; cases hrun
  | succ fuel ih =>
      intro w w' h hrun
      unfold processSlot at hrun
      cases hbucket : w.buckets level slot with
      | nil =>
          rw [hbucket] at hrun
          obtain rfl := Option.some.inj hrun
          exact .refl
      | cons p tail =>
          rw [hbucket] at hrun
          have hround := round_effects adv h hbucket
          exact hround.trans (ih (h.effects hround) hrun)

theorem cascade_effects (adv : policy.advancing) (fuel : Nat) (level : Nat) :
    ∀ {w w' : TimerWheel}, Inv w → cascade fuel level w = some w' → Effects policy w w' := by
  induction level with
  | zero =>
      intro w w' _ hrun
      obtain rfl := Option.some.inj hrun
      exact .refl
  | succ level ih =>
      intro w w' h hrun
      unfold cascade at hrun
      split at hrun
      · exact ih h hrun
      · cases hslot : processSlot (level + 1)
            (w.currentTime / interval (level + 1) % slots) fuel w with
        | none => rw [hslot] at hrun; cases hrun
        | some w₁ =>
            rw [hslot] at hrun
            have hfirst := processSlot_effects adv fuel h hslot
            exact hfirst.trans (ih (h.effects hfirst) hrun)

theorem advance_effects (adv : policy.advancing) {fuel : Nat} (h : Inv w) (hrun : advance fuel w = some w') :
    Effects policy w w' := by
  have hpass : Effect policy w { w with currentTime := w.currentTime + 1 } :=
    .pass adv ⟨rfl, rfl, rfl, rfl, fun _ => rfl⟩ rfl
  unfold advance at hrun
  cases hcas : cascade fuel (twLevels - 1) { w with currentTime := w.currentTime + 1 } with
  | none => rw [hcas] at hrun; cases hrun
  | some w₁ =>
      rw [hcas] at hrun
      have hfirst := (ReflTransGen.single hpass).trans
        (cascade_effects adv fuel _ (h.effect hpass) hcas)
      exact hfirst.trans (processSlot_effects adv fuel (h.effects hfirst) hrun)

theorem advanceBy_effects (adv : policy.advancing) {fuel : Nat} (rounds : Nat) :
    ∀ {w w' : TimerWheel}, Inv w → advanceBy fuel rounds w = some w' → Effects policy w w' := by
  induction rounds with
  | zero =>
      intro w w' _ hrun
      obtain rfl := Option.some.inj hrun
      exact .refl
  | succ rounds ih =>
      intro w w' h hrun
      unfold advanceBy at hrun
      cases hadv : advance fuel w with
      | none => rw [hadv] at hrun; cases hrun
      | some w₁ =>
          rw [hadv] at hrun
          have hfirst := advance_effects adv h hadv
          exact hfirst.trans (ih (h.effects hfirst) hrun)

/-! ## The end of a tick -/

theorem foldl_scanTimer_same (ps : List Ptr) :
    ∀ w : TimerWheel, (ps.foldl scanTimer w).buckets = w.buckets ∧
      (ps.foldl scanTimer w).mem = w.mem ∧ (ps.foldl scanTimer w).books = w.books ∧
      ((∀ q ∈ ps, q ∉ w.released) → (ps.foldl scanTimer w).lateAccess = w.lateAccess) := by
  induction ps with
  | nil => intro w; exact ⟨rfl, rfl, rfl, fun _ => rfl⟩
  | cons q ps ih =>
      intro w
      obtain ⟨hb, hm, hbooks, hlate⟩ := ih (w.scanTimer q)
      refine ⟨hb, hm, hbooks, fun hr => ?_⟩
      rw [List.foldl_cons, hlate (fun x hx => hr x (List.mem_cons_of_mem _ hx))]
      exact touch_lateAccess (hr q List.mem_cons_self)

theorem holds_of_mem_entries {q : Ptr} (h : q ∈ w.entries) : w.Holds q := by
  unfold entries at h
  obtain ⟨level, -, hlevel⟩ := List.mem_flatMap.mp h
  obtain ⟨slot, -, hslot⟩ := List.mem_flatMap.mp hlevel
  exact ⟨level, slot, hslot⟩

theorem refreshMinimum_same (w : TimerWheel) :
    w.refreshMinimum.buckets = w.buckets ∧ w.refreshMinimum.mem = w.mem ∧
      w.refreshMinimum.books = w.books ∧
      ((∀ q, w.Holds q → q ∉ w.released) → w.refreshMinimum.lateAccess = w.lateAccess) := by
  unfold refreshMinimum
  split
  · exact ⟨rfl, rfl, rfl, fun _ => rfl⟩
  · split
    · obtain ⟨hb, hm, hbooks, hlate⟩ :=
        foldl_scanTimer_same w.entries { w with nextExpiryTime := 0 }
      exact ⟨hb, hm, hbooks, fun hheld => hlate fun q hq => hheld q (holds_of_mem_entries hq)⟩
    · exact ⟨rfl, rfl, rfl, fun _ => rfl⟩

theorem refreshNextExpiry_effect (w : TimerWheel) : Effect policy w w.refreshNextExpiry := by
  obtain ⟨hb, hm, hbooks, hlate⟩ := refreshMinimum_same w
  exact .refresh hb hm hbooks rfl rfl hlate

theorem foldl_callRaw_effects (calls : List (Nat × Nat)) :
    ∀ w : TimerWheel, Effects policy w (calls.foldl callRaw w) := by
  induction calls with
  | nil => intro w; exact .refl
  | cons c calls ih =>
      intro w
      have hcall : Effect policy w (w.callRaw c) := note_effect trivial
      exact (ReflTransGen.single hcall).trans (ih _)

theorem runFired_effects (w : TimerWheel) : Effects policy w w.runFired := by
  refine (foldl_callRaw_effects w.firedRaw w).tail ?_
  exact .quiet ⟨rfl, rfl, rfl, rfl, fun _ => rfl⟩ rfl

theorem afterReading_effect (w : TimerWheel) : Effect policy w w.afterReading :=
  .quiet ⟨rfl, rfl, rfl, rfl, fun _ => rfl⟩ rfl

theorem tick_rest_effects (adv : policy.advancing) (clock : Clock) {fuel : Nat} (h : Inv w)
    (hrun : w.tick clock fuel = some w') : Effects policy (w.drainOps clock) w' := by
  have hdrain : Effects policy w _ := drainOps_effects clock h
  have hinv := h.effects hdrain
  have hread : Effects policy (w.drainOps clock) (w.drainOps clock).afterReading :=
    .single (afterReading_effect _)
  unfold tick at hrun
  dsimp only at hrun
  split at hrun
  · obtain rfl := Option.some.inj hrun
    exact hread.tail (refreshNextExpiry_effect _)
  · split at hrun
    · cases hrun
    · next w₁ hadv =>
        obtain rfl := Option.some.inj hrun
        have hadvance := advanceBy_effects adv _ (hinv.effects hread) hadv
        exact ((hread.trans hadvance).tail (refreshNextExpiry_effect _)).trans (runFired_effects _)

theorem tick_effects (adv : policy.advancing) (clock : Clock) {fuel : Nat} (h : Inv w)
    (hrun : w.tick clock fuel = some w') : Effects policy w w' :=
  (drainOps_effects clock h).trans (tick_rest_effects adv clock h hrun)

end Uvent.Timers
