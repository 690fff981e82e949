import Uvent.Timers.ExactFiring
import Uvent.Timers.NextExpiry
import Uvent.Timers.Termination

/-!
# The minimum kept without a scan

Insertions lower `nextExpiryTime_`; a timer that leaves with that expiry sets the
dirty flag, and the next tick scans the wheel.  While the flag is not set, the value
is the expiry of some timer in the wheel.
-/

namespace Uvent.Timers

open TimerWheel Relation

def Attained (w : TimerWheel) : Prop :=
  w.nextExpiryDirty = false →
    w.nextExpiryTime = 0 ∨ ∃ p, w.Holds p ∧ (w.mem p).expiryTime = w.nextExpiryTime

section Attained

variable {policy : Policy} {w w' : TimerWheel} {p : Ptr}

theorem lowered_cases (next e : Nat) : lowered next e = e ∨ (lowered next e = next ∧ next ≠ 0) := by
  unfold lowered
  split
  · exact .inl rfl
  · exact .inr ⟨rfl, by omega⟩

theorem foldl_scanTimer_attained (ps : List Ptr) :
    ∀ w : TimerWheel, (∀ p ∈ ps, (w.mem p).active = true) →
      (ps.foldl scanTimer w).nextExpiryTime = w.nextExpiryTime ∨
        ∃ p ∈ ps, (w.mem p).expiryTime = (ps.foldl scanTimer w).nextExpiryTime := by
  induction ps with
  | nil => intro w _; exact .inl rfl
  | cons q ps ih =>
      intro w hall
      have hactive := hall q List.mem_cons_self
      rw [List.foldl_cons]
      rcases ih (w.scanTimer q) fun p hp => hall p (List.mem_cons_of_mem _ hp) with hsame | hfound
      · rw [scanTimer_next hactive] at hsame
        rcases lowered_cases w.nextExpiryTime (w.mem q).expiryTime with hlow | ⟨hkeep, -⟩
        · exact .inr ⟨q, List.mem_cons_self, hlow.symm.trans hsame.symm⟩
        · exact .inl (hsame.trans hkeep)
      · obtain ⟨p, hp, heq⟩ := hfound
        exact .inr ⟨p, List.mem_cons_of_mem _ hp, heq⟩

theorem Attained.of_same (h : Attained w) (hb : w'.buckets = w.buckets)
    (hm : ∀ q, w.Holds q → w'.mem q = w.mem q) (hnext : w'.nextExpiryTime = w.nextExpiryTime)
    (hdirty : w'.nextExpiryDirty = w.nextExpiryDirty) : Attained w' := by
  intro hclean
  rw [hdirty] at hclean
  rw [hnext]
  rcases h hclean with hzero | ⟨p, hp, heq⟩
  · exact .inl hzero
  · refine .inr ⟨p, ?_, by rw [hm p hp]; exact heq⟩
    unfold Holds at hp ⊢
    rwa [hb]

theorem Attained.of_still (h : Attained w) (still : Still w w') : Attained w' :=
  h.of_same still.buckets (fun q _ => by rw [still.mem]) still.next still.dirty

/-- A timer goes into a bucket; where it comes from, the flag tells that it may have
been the first. -/
theorem Attained.of_moved_in (h : Attained w) {target : Nat × Nat} {f : Timer → Timer} {e : Nat}
    (moved : Moved w w' p (some target) f) (hself : (f (w.mem p)).expiryTime = e)
    (hnext : w'.nextExpiryTime = lowered w.nextExpiryTime e)
    (hdirty : w'.nextExpiryDirty = false → w.nextExpiryDirty = false ∧
      (w.Holds p → (w.mem p).expiryTime = w.nextExpiryTime → e = w.nextExpiryTime)) :
    Attained w' := by
  intro hclean
  obtain ⟨hwas, hfirst⟩ := hdirty hclean
  have hexpiry : (w'.mem p).expiryTime = e := (Timer.expiryTime_of_unplaced moved.self).trans hself
  have hholds : w'.Holds p := (moved.holds_iff p).mpr (.inr ⟨rfl, Option.some_ne_none _⟩)
  rw [hnext]
  rcases lowered_cases w.nextExpiryTime e with hlow | ⟨hkeep, hne⟩
  · exact .inr ⟨p, hholds, hexpiry.trans hlow.symm⟩
  · rw [hkeep]
    obtain ⟨q, hq, heq⟩ := (h hwas).resolve_left hne
    by_cases hqp : q = p
    · rw [hqp] at hq heq
      exact .inr ⟨p, hholds, hexpiry.trans (hfirst hq heq)⟩
    · refine .inr ⟨q, (moved.holds_iff q).mpr (.inl ⟨hq, hqp⟩), ?_⟩
      rw [Timer.expiryTime_of_unplaced (moved.others q hqp)]
      exact heq

theorem soiled_eq_false {e : Nat} (h : soiled w e = false) :
    e ≠ w.nextExpiryTime ∧ w.nextExpiryDirty = false := by
  unfold soiled at h
  split at h
  · cases h
  · next hne => exact ⟨hne, h⟩

theorem Attained.of_moved_out (h : Attained w) {f : Timer → Timer} (moved : Moved w w' p none f)
    (hnext : w'.nextExpiryTime = w.nextExpiryTime)
    (hdirty : w'.nextExpiryDirty = soiled w (w.mem p).expiryTime) : Attained w' := by
  intro hclean
  rw [hdirty] at hclean
  obtain ⟨hne, hwas⟩ := soiled_eq_false hclean
  rw [hnext]
  rcases h hwas with hzero | ⟨q, hq, heq⟩
  · exact .inl hzero
  · have hqp : q ≠ p := by
      rintro rfl
      exact hne heq
    refine .inr ⟨q, (moved.holds_iff q).mpr (.inl ⟨hq, hqp⟩), ?_⟩
    rw [Timer.expiryTime_of_unplaced (moved.others q hqp)]
    exact heq

theorem updateNextExpiryTime_attained (h : Inv w) :
    w.updateNextExpiryTime.nextExpiryTime = 0 ∨
      ∃ p, w.Holds p ∧ (w.mem p).expiryTime = w.updateNextExpiryTime.nextExpiryTime := by
  rcases foldl_scanTimer_attained w.entries { w with nextExpiryTime := 0 } fun p hp =>
    (h.known p (holds_of_mem_entries hp)).1 with hzero | ⟨p, hp, heq⟩
  · exact .inl hzero
  · exact .inr ⟨p, holds_of_mem_entries hp, heq⟩

theorem refreshMinimum_attained (h : Inv w) (ha : Attained w) :
    w.refreshMinimum.nextExpiryTime = 0 ∨
      ∃ p, w.Holds p ∧ (w.mem p).expiryTime = w.refreshMinimum.nextExpiryTime := by
  unfold refreshMinimum
  split
  · exact .inl rfl
  · split
    · exact updateNextExpiryTime_attained h
    · next hclean =>
        apply ha
        rw [← Bool.not_eq_true]
        exact fun hdirty => hclean (.inl hdirty)

theorem Attained.effect (ha : Attained w) (h : Inv w) (heff : Effect policy w w') :
    Attained w' := by
  cases heff with
  | quiet still => exact ha.of_still still
  | refresh hb hm books next dirty =>
      intro _
      rw [next]
      rcases refreshMinimum_attained h ha with hzero | ⟨p, hp, heq⟩
      · exact .inl hzero
      · refine .inr ⟨p, ?_, by rw [hm]; exact heq⟩
        unfold Holds at hp ⊢
        rwa [hb]
  | note e plain still => exact ha.of_still still
  | refused id unmapped old still => exact ha.of_still still
  | update id newDur still => exact ha.of_still still
  | remove id done ok still => exact ha.of_still still
  | add p t expiry ok hb hm books next dirty =>
      refine ha.of_same hb (fun q hq => ?_) next dirty
      have hne : q ≠ p := by
        rintro rfl
        exact ok.unmapped _ (h.known q hq).2
      rw [hm, Function.update_of_ne hne]
  | pendCancel id ok pos unmapped new still => exact ha.of_still still
  | pendDetach id ok pos unmapped new still => exact ha.of_still still
  | pendRemove id done rest plain released hplain head unmapped new still =>
      exact ha.of_still still
  | release id unmapped gone still => exact ha.of_still still
  | pop op rest head other still => exact ha.of_still still
  | dropDetached p id rest head detached still => exact ha.of_still still
  | dropCancelled p id rest head attached cancelled hb hm books next dirty =>
      exact ha.of_same hb (fun q _ => by rw [hm]) next dirty
  | accept p id rest head attached live moved books next dirty =>
      exact ha.of_moved_in moved rfl next fun hclean => ⟨dirty.symm.trans hclean, fun _ heq => heq⟩
  | rearm id p newDur expiry mapped moved books next dirty =>
      refine ha.of_moved_in moved rfl next fun hclean => ?_
      obtain ⟨hne, hwas⟩ := soiled_eq_false (dirty.symm.trans hclean)
      exact ⟨hwas, fun _ heq => absurd heq hne⟩
  | unlink id p e kind mapped moved books next dirty => exact ha.of_moved_out moved next dirty
  | fire p adv holds due moved books next dirty => exact ha.of_moved_out moved next dirty
  | relink p adv holds early moved books next dirty =>
      exact ha.of_moved_in moved rfl next fun hclean => ⟨dirty.symm.trans hclean, fun _ heq => heq⟩
  | pass adv still => exact ha.of_still still

theorem Attained.effects (ha : Attained w) (h : Inv w) (heffs : Effects policy w w') :
    Attained w' := by
  induction heffs with
  | refl => exact ha
  | tail hpre heff ih => exact ih.effect (h.effects hpre) heff

theorem attained_new (clock : Clock) : Attained (TimerWheel.new clock) := fun _ => .inl rfl

end Attained

/-! ## What a tick adds to the log -/

section Log

variable {clock : Clock} {w w' : TimerWheel} {id e c : Nat}

theorem advanceBy_drained (fuel rounds : Nat) :
    ∀ {w : TimerWheel}, Inv w → advanceBy fuel rounds w = some w' →
      w'.timerOperationsQueue = w.timerOperationsQueue ∧
      ∀ id e c, Event.drained id e c ∈ w'.log → Event.drained id e c ∈ w.log := by
  induction rounds with
  | zero =>
      intro w _ hrun
      obtain rfl := Option.some.inj hrun
      exact ⟨rfl, fun _ _ _ hmem => hmem⟩
  | succ rounds ih =>
      intro w h hrun
      rw [advanceBy] at hrun
      cases hadv : advance fuel w with
      | none => rw [hadv] at hrun; cases hrun
      | some w₁ =>
          rw [hadv] at hrun
          have heffects : Effects Policy.any w w₁ := advance_effects trivial h hadv
          have hvisited := advance_visited h hadv
          obtain ⟨hqueue, hdrained⟩ := ih (h.effects heffects) hrun
          exact ⟨hqueue.trans hvisited.queue,
            fun id e c hmem => hvisited.drained id e c (hdrained id e c hmem)⟩

theorem foldl_callRaw_drained (calls : List (Nat × Nat)) :
    ∀ w : TimerWheel, Event.drained id e c ∈ (calls.foldl callRaw w).log →
      Event.drained id e c ∈ w.log := by
  induction calls with
  | nil => exact fun _ hmem => hmem
  | cons call calls ih =>
      intro w hmem
      rcases List.mem_cons.mp (ih (w.callRaw call) hmem) with heq | hmem
      · cases heq
      · exact hmem

theorem foldl_callRaw_next (calls : List (Nat × Nat)) :
    ∀ w : TimerWheel, (calls.foldl callRaw w).nextExpiryDirty = w.nextExpiryDirty ∧
      (calls.foldl callRaw w).timerOperationsQueue = w.timerOperationsQueue := by
  induction calls with
  | nil => exact fun _ => ⟨rfl, rfl⟩
  | cons call calls ih => exact fun w => ih (w.callRaw call)

theorem refreshNextExpiry_log (w : TimerWheel) : w.refreshNextExpiry.log = w.log ∧
    w.refreshNextExpiry.timerOperationsQueue = w.timerOperationsQueue :=
  ⟨congrArg Books.log (refreshMinimum_same w).2.2.1,
    congrArg Books.timerOperationsQueue (refreshMinimum_same w).2.2.1⟩

/-- A tick leaves the flag down, and only the draining adds to what the log says about it. -/
theorem tick_drained (h : Inv w) {fuel : Nat} (hrun : w.tick clock fuel = some w') :
    w'.nextExpiryDirty = false ∧
      (∀ id e c, Event.drained id e c ∈ w'.log → Event.drained id e c ∈ (w.drainOps clock).log) ∧
      w'.timerOperationsQueue = (w.drainOps clock).timerOperationsQueue := by
  have hdrain : Effects Policy.any w (w.drainOps clock).afterReading :=
    (drainOps_effects clock h).tail (afterReading_effect _)
  unfold tick at hrun
  dsimp only at hrun
  split at hrun
  · obtain rfl := Option.some.inj hrun
    refine ⟨rfl, fun id e c hmem => ?_, (refreshNextExpiry_log _).2⟩
    rw [(refreshNextExpiry_log _).1] at hmem
    exact hmem
  · split at hrun
    · cases hrun
    · next w₁ hadv =>
        obtain rfl := Option.some.inj hrun
        obtain ⟨hqueue, hdrained⟩ := advanceBy_drained fuel _ (h.effects hdrain) hadv
        obtain ⟨hclean, hsame⟩ := foldl_callRaw_next w₁.refreshNextExpiry.firedRaw
          w₁.refreshNextExpiry
        refine ⟨hclean, fun id e c hmem => ?_,
          (hsame.trans (refreshNextExpiry_log w₁).2).trans hqueue⟩
        have hbefore : Event.drained id e c ∈ w₁.refreshNextExpiry.log :=
          foldl_callRaw_drained _ _ hmem
        rw [(refreshNextExpiry_log w₁).1] at hbefore
        exact hdrained id e c hbefore

end Log

/-! ## The minimum after a tick -/

/-- `nextExpiryTime_` is the least expiry of the timers in the map, `0` when there is none,
and what a scan of the whole wheel finds. -/
structure LeastExpiry (w : TimerWheel) : Prop where
  le : ∀ id p, w.timerMap id = some p → w.nextExpiryTime ≤ (w.mem p).expiryTime
  attained : w.nextExpiryTime ≠ 0 →
    ∃ id p, w.timerMap id = some p ∧ (w.mem p).expiryTime = w.nextExpiryTime
  zero : w.nextExpiryTime = 0 ↔ ∀ id, w.timerMap id = none
  scan : w.updateNextExpiryTime.nextExpiryTime = w.nextExpiryTime

section Least

variable {clock : Clock} {w : TimerWheel}

theorem leastExpiry_of_attained (h : Inv w) (ht : Tracked w)
    (ha : w.nextExpiryTime = 0 ∨ ∃ p, w.Holds p ∧ (w.mem p).expiryTime = w.nextExpiryTime) :
    LeastExpiry w where
  le id p hp := ht.le p (h.held id p hp).2
  attained hne := by
    obtain ⟨p, hp, heq⟩ := ha.resolve_left hne
    exact ⟨(w.mem p).id, p, (h.known p hp).2, heq⟩
  zero := by
    constructor
    · intro hzero id
      by_contra hmapped
      obtain ⟨p, hp⟩ := Option.ne_none_iff_exists'.mp hmapped
      exact ht.found p (h.held id p hp).2 hzero
    · intro hnone
      refine ha.resolve_right ?_
      rintro ⟨p, hp, -⟩
      have hmap := (h.known p hp).2
      rw [hnone] at hmap
      cases hmap
  scan := by
    have hall : ∀ p ∈ w.entries, (w.mem p).active = true ∧ (w.mem p).expiryTime ≠ 0 :=
      fun p hp => ⟨(h.known p (holds_of_mem_entries hp)).1, ht.pos p (holds_of_mem_entries hp)⟩
    have hbelow := (foldl_scanTimer_next w.entries { w with nextExpiryTime := 0 } hall).2
    change ∀ p ∈ w.entries, w.updateNextExpiryTime.nextExpiryTime ≠ 0 ∧
      w.updateNextExpiryTime.nextExpiryTime ≤ (w.mem p).expiryTime at hbelow
    rcases ha with hzero | ⟨p, hp, heq⟩
    · rcases updateNextExpiryTime_attained h with hscan | ⟨q, hq, -⟩
      · exact hscan.trans hzero.symm
      · exact absurd hzero (ht.found q hq)
    · obtain ⟨hne, hle⟩ := hbelow p (mem_entries h.linked hp)
      rcases updateNextExpiryTime_attained h with hscan | ⟨q, hq, hscan⟩
      · exact absurd hscan hne
      · have hge := ht.le q hq
        omega

/-- **The lazy minimum.**  In every run in which each timer is drained with a nonzero expiry
less than `2^32` ahead, the next `tick` returns and leaves in `nextExpiryTime_` the least
expiry of the timers in the map, `0` exactly when there is none. -/
theorem leastExpiry_of_tick (h : Reachable Policy.any clock w)
    (hspan : InSpan (w.drainOps clock).log) (hnever : NeverZero (w.drainOps clock).log) :
    ∃ enough w', (∀ fuel ≥ enough, w.tick clock fuel = some w') ∧ LeastExpiry w' := by
  have hinv : Inv w := h.inv trivial
  have hdrain : Effects Policy.any w (w.drainOps clock) := drainOps_effects clock hinv
  obtain ⟨l, hl⟩ := hdrain.log_eq
  have hbefore : InSpan w.log := InSpan.of_append (hl ▸ hspan)
  obtain ⟨enough, w', hrun, -⟩ := tick_timely clock hinv (h.timely hbefore) hspan
  refine ⟨enough, w', hrun, ?_⟩
  have hreturns := hrun enough le_rfl
  obtain ⟨hclean, hdrained, -⟩ := tick_drained hinv hreturns
  have heffects : Effects Policy.any (TimerWheel.new clock) w' :=
    (h.effects trivial).trans (tick_effects trivial clock hinv hreturns)
  have hinv' : Inv w' := (inv_new clock).effects heffects
  have ht : Tracked w' :=
    tracked_of_effects heffects fun id time hmem => hnever id time (hdrained id 0 time hmem)
  exact leastExpiry_of_attained hinv' ht
    ((attained_new clock).effects (inv_new clock) heffects hclean)

end Least

/-- The tick fires two timers of three. -/
theorem mixedRun_leastExpiry :
    LeastExpiry mixedRun ∧ mixedRun.timerMap 3 = some 2 ∧ mixedRun.nextExpiryTime = 300 := by
  have hlog : ((mixedWheel 3).drainOps mixedClock).log = [.drained 3 300 0, .drained 2 3 0,
      .drained 1 2 0, .added 3 2 (.raw 8 1), .added 2 1 (.coroutine 5), .added 1 0 (.raw 7 9)] := by
    decide +kernel
  have hspan : InSpan ((mixedWheel 3).drainOps mixedClock).log := by
    intro id e c hmem
    rw [hlog] at hmem
    simp at hmem
    omega
  have hnever : NeverZero ((mixedWheel 3).drainOps mixedClock).log := by
    intro id time hmem
    rw [hlog] at hmem
    simp at hmem
  obtain ⟨enough, w', hrun, hleast⟩ := leastExpiry_of_tick mixedWheel_reachable hspan hnever
  have hmono := tick_mono (le_max_left 4 enough) mixedRun_tick
  rw [hrun (max 4 enough) (le_max_right _ _)] at hmono
  obtain rfl := Option.some.inj hmono
  exact ⟨hleast, by decide +kernel, by decide +kernel⟩

end Uvent.Timers
