import Uvent.Timers.Runs

/-!
# The earliest expiry

`nextExpiryTime_` is at most the expiry of every timer in the wheel.  The value
`0` stands for no timer at all, so this needs that no timer was put into the
wheel with the expiry `0`; the log tells.
-/

namespace Uvent.Timers

open TimerWheel

def NeverZero (log : List Event) : Prop := ∀ id time, Event.drained id 0 time ∉ log

structure Tracked (w : TimerWheel) : Prop where
  pos : ∀ p, w.Holds p → (w.mem p).expiryTime ≠ 0
  found : ∀ p, w.Holds p → w.nextExpiryTime ≠ 0
  le : ∀ p, w.Holds p → w.nextExpiryTime ≤ (w.mem p).expiryTime

theorem lowered_ne_zero {next e : Nat} (he : e ≠ 0) : lowered next e ≠ 0 := by
  unfold lowered
  split <;> omega

theorem lowered_le (next e : Nat) : lowered next e ≤ e := by
  unfold lowered
  split <;> omega

theorem lowered_le_next {next e : Nat} (hnext : next ≠ 0) : lowered next e ≤ next := by
  unfold lowered
  split <;> omega

/-! ## The scan -/

theorem mem_entries {w : TimerWheel} {p : Ptr} (h : Linked w.buckets w.mem) (hp : w.Holds p) :
    p ∈ w.entries := by
  obtain ⟨level, slot, hmem⟩ := hp
  obtain ⟨pos, hpos⟩ := List.mem_iff_getElem?.mp hmem
  obtain ⟨-, -, -, hlevel, hslot⟩ := h level slot pos p hpos
  unfold entries
  refine List.mem_flatMap.mpr ⟨level, List.mem_range.mpr hlevel, ?_⟩
  exact List.mem_flatMap.mpr ⟨slot, List.mem_range.mpr hslot, hmem⟩

theorem scanTimer_next {w : TimerWheel} {p : Ptr} (hactive : (w.mem p).active = true) :
    (w.scanTimer p).nextExpiryTime = lowered w.nextExpiryTime (w.mem p).expiryTime := by
  simp [scanTimer, lowered, hactive]

/-- The loop over the buckets goes below what it started with and below every
timer it sees. -/
theorem foldl_scanTimer_next (ps : List Ptr) :
    ∀ w : TimerWheel, (∀ p ∈ ps, (w.mem p).active = true ∧ (w.mem p).expiryTime ≠ 0) →
      (w.nextExpiryTime ≠ 0 → (ps.foldl scanTimer w).nextExpiryTime ≠ 0 ∧
        (ps.foldl scanTimer w).nextExpiryTime ≤ w.nextExpiryTime) ∧
      ∀ p ∈ ps, (ps.foldl scanTimer w).nextExpiryTime ≠ 0 ∧
        (ps.foldl scanTimer w).nextExpiryTime ≤ (w.mem p).expiryTime := by
  induction ps with
  | nil => intro w _; exact ⟨fun h => ⟨h, le_rfl⟩, by simp⟩
  | cons q ps ih =>
      intro w hall
      obtain ⟨hactive, hpos⟩ := hall q List.mem_cons_self
      obtain ⟨hstart, hrest⟩ := ih (w.scanTimer q) fun p hp => hall p (List.mem_cons_of_mem _ hp)
      rw [scanTimer_next hactive] at hstart
      obtain ⟨hne, hle⟩ := hstart (lowered_ne_zero hpos)
      rw [List.foldl_cons]
      refine ⟨fun hnext => ⟨hne, hle.trans (lowered_le_next hnext)⟩, ?_⟩
      intro p hp
      rcases List.mem_cons.mp hp with rfl | hp
      · exact ⟨hne, hle.trans (lowered_le _ _)⟩
      · exact hrest p hp

section Tracked

variable {policy : Policy} {w w' : TimerWheel} {p : Ptr}

theorem Tracked.of_same (h : Tracked w) (hb : w'.buckets = w.buckets)
    (hm : ∀ q, w.Holds q → w'.mem q = w.mem q) (hnext : w'.nextExpiryTime = w.nextExpiryTime) :
    Tracked w' := by
  have hholds : ∀ q, w'.Holds q → w.Holds q := by
    intro q hq
    unfold Holds
    rw [← hb]
    exact hq
  refine ⟨?_, ?_, ?_⟩
  · intro q hq
    rw [hm q (hholds q hq)]
    exact h.pos q (hholds q hq)
  · intro q hq
    rw [hnext]
    exact h.found q (hholds q hq)
  · intro q hq
    rw [hm q (hholds q hq), hnext]
    exact h.le q (hholds q hq)

theorem Tracked.of_still (h : Tracked w) (still : Still w w') : Tracked w' :=
  h.of_same still.buckets (fun q _ => by rw [still.mem]) still.next

theorem Tracked.of_moved_in (h : Tracked w) {target : Nat × Nat} {f : Timer → Timer} {e : Nat}
    (moved : Moved w w' p (some target) f) (hself : (f (w.mem p)).expiryTime = e) (he : e ≠ 0)
    (hnext : w'.nextExpiryTime = lowered w.nextExpiryTime e) : Tracked w' := by
  have hp : (w'.mem p).expiryTime = e := (Timer.expiryTime_of_unplaced moved.self).trans hself
  have hother : ∀ q, q ≠ p → w'.Holds q →
      w.Holds q ∧ (w'.mem q).expiryTime = (w.mem q).expiryTime := by
    intro q hne hq
    rcases (moved.holds_iff q).mp hq with ⟨hold, -⟩ | ⟨heq, -⟩
    · exact ⟨hold, Timer.expiryTime_of_unplaced (moved.others q hne)⟩
    · exact absurd heq hne
  refine ⟨?_, ?_, ?_⟩
  · intro q hq
    by_cases hqp : q = p
    · rw [hqp, hp]
      exact he
    · obtain ⟨hold, heq⟩ := hother q hqp hq
      rw [heq]
      exact h.pos q hold
  · intro q _
    rw [hnext]
    exact lowered_ne_zero he
  · intro q hq
    rw [hnext]
    by_cases hqp : q = p
    · rw [hqp, hp]
      exact lowered_le _ _
    · obtain ⟨hold, heq⟩ := hother q hqp hq
      rw [heq]
      exact (lowered_le_next (h.found q hold)).trans (h.le q hold)

/-- A timer goes out. -/
theorem Tracked.of_moved_out (h : Tracked w) {f : Timer → Timer} (moved : Moved w w' p none f)
    (hnext : w'.nextExpiryTime = w.nextExpiryTime) : Tracked w' := by
  have hold : ∀ q, w'.Holds q → w.Holds q ∧ (w'.mem q).expiryTime = (w.mem q).expiryTime := by
    intro q hq
    rcases (moved.holds_iff q).mp hq with ⟨hold, hne⟩ | ⟨-, habs⟩
    · exact ⟨hold, Timer.expiryTime_of_unplaced (moved.others q hne)⟩
    · exact absurd rfl habs
  refine ⟨?_, ?_, ?_⟩
  · intro q hq
    obtain ⟨hq', heq⟩ := hold q hq
    rw [heq]
    exact h.pos q hq'
  · intro q hq
    rw [hnext]
    exact h.found q (hold q hq).1
  · intro q hq
    obtain ⟨hq', heq⟩ := hold q hq
    rw [heq, hnext]
    exact h.le q hq'

theorem Inv.not_holds_of_count (h : Inv w) (hcount : w.activeTimerCount = 0) (q : Ptr) :
    ¬w.Holds q := by
  intro hq
  obtain ⟨ids, hcard, hids⟩ := h.count
  have hmap := (h.known q hq).2
  have hmem : (w.mem q).id ∈ ids := (hids _).mpr (by rw [hmap]; simp)
  rw [hcount, Finset.card_eq_zero] at hcard
  rw [hcard] at hmem
  simp at hmem

/-- The end of a tick finds the minimum again where it may be lost. -/
theorem Tracked.of_refresh (ht : Tracked w) (h : Inv w) (hb : w'.buckets = w.buckets)
    (hm : w'.mem = w.mem) (hnext : w'.nextExpiryTime = w.refreshMinimum.nextExpiryTime) :
    Tracked w' := by
  have hholds : ∀ q, w'.Holds q → w.Holds q := by
    intro q hq
    unfold Holds
    rw [← hb]
    exact hq
  have hmin : ∀ q, w.Holds q → w.refreshMinimum.nextExpiryTime ≠ 0 ∧
      w.refreshMinimum.nextExpiryTime ≤ (w.mem q).expiryTime := by
    intro q hq
    unfold refreshMinimum
    split
    · rename_i hcount
      exact absurd hq (h.not_holds_of_count hcount q)
    · split
      · have hall : ∀ p ∈ w.entries, (w.mem p).active = true ∧ (w.mem p).expiryTime ≠ 0 := by
          intro p hp
          have hheld := holds_of_mem_entries hp
          exact ⟨(h.known p hheld).1, ht.pos p hheld⟩
        have hscan := foldl_scanTimer_next w.entries { w with nextExpiryTime := 0 } hall
        exact hscan.2 q (mem_entries h.linked hq)
      · exact ⟨ht.found q hq, ht.le q hq⟩
  refine ⟨?_, ?_, ?_⟩
  · intro q hq
    rw [hm]
    exact ht.pos q (hholds q hq)
  · intro q hq
    rw [hnext]
    exact (hmin q (hholds q hq)).1
  · intro q hq
    rw [hnext, hm]
    exact (hmin q (hholds q hq)).2

theorem Tracked.effect (ht : Tracked w) (h : Inv w) (heff : Effect policy w w')
    (hnever : NeverZero w'.log) : Tracked w' := by
  cases heff with
  | quiet still => exact ht.of_still still
  | refresh hbuckets hmem books next => exact ht.of_refresh h hbuckets hmem next
  | note e plain still => exact ht.of_still still
  | refused id unmapped old still => exact ht.of_still still
  | update id newDur still => exact ht.of_still still
  | remove id done ok still => exact ht.of_still still
  | add p t expiry ok hbuckets hmem books next =>
      refine ht.of_same hbuckets ?_ next
      intro q hq
      have hne : q ≠ p := by
        rintro rfl
        exact ok.unmapped _ (h.known q hq).2
      rw [hmem, Function.update_of_ne hne]
  | pendCancel id ok pos unmapped new still => exact ht.of_still still
  | pendDetach id ok pos unmapped new still => exact ht.of_still still
  | pendRemove id done rest plain released hplain head unmapped new still =>
      exact ht.of_still still
  | release id unmapped gone still => exact ht.of_still still
  | pop op rest head other still => exact ht.of_still still
  | dropDetached p id rest head detached still => exact ht.of_still still
  | dropCancelled p id rest head attached cancelled hbuckets hmem books next =>
      exact ht.of_same hbuckets (fun q _ => by rw [hmem]) next
  | accept p id rest head attached live moved books next =>
      have hlog : w'.log = .drained (w.mem p).id (w.mem p).expiryTime w.currentTime :: w.log :=
        congrArg Books.log books
      refine ht.of_moved_in moved rfl ?_ next
      intro hzero
      rw [hlog, hzero] at hnever
      exact hnever _ _ List.mem_cons_self
  | rearm id p newDur expiry mapped moved books next =>
      have hlog : w'.log = .drained id expiry w.currentTime :: w.log := congrArg Books.log books
      refine ht.of_moved_in moved rfl ?_ next
      rintro rfl
      rw [hlog] at hnever
      exact hnever _ _ List.mem_cons_self
  | unlink id p e kind mapped moved books next => exact ht.of_moved_out moved next
  | fire p adv holds due moved books next => exact ht.of_moved_out moved next
  | relink p adv holds early moved books next =>
      exact ht.of_moved_in moved rfl (ht.pos p holds) next
  | pass adv still => exact ht.of_still still

end Tracked

theorem tracked_new (clock : Clock) : Tracked (TimerWheel.new clock) := by
  have hnone : ∀ p, ¬(TimerWheel.new clock).Holds p := by
    rintro p ⟨level, slot, hp⟩
    simp [TimerWheel.new] at hp
  exact ⟨fun p hp => absurd hp (hnone p), fun p hp => absurd hp (hnone p),
    fun p hp => absurd hp (hnone p)⟩

theorem tracked_of_effects {policy : Policy} {clock : Clock} {w : TimerWheel}
    (heffs : Effects policy (TimerWheel.new clock) w) (hnever : NeverZero w.log) : Tracked w := by
  induction heffs with
  | refl => exact tracked_new clock
  | tail hpre heff ih =>
      obtain ⟨l, hlog⟩ := heff.log_eq
      have hbefore : NeverZero _ := fun id time hmem =>
        hnever id time (by rw [hlog]; exact List.mem_append_right l hmem)
      exact (ih hbefore).effect ((inv_new clock).effects hpre) heff hnever

end Uvent.Timers
