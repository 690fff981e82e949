import Uvent.Timers.Sweep

/-!
# When a tick returns

`processSlot` puts an unexpired timer back into the wheel and pops it from the
bucket it scans.  It returns exactly when no timer goes back to that very bucket.
Below the top level a timer always moves down.  At the top level a timer whose
expiry is a whole lap or more away goes back to where it was.
-/

namespace Uvent.Timers

open TimerWheel Uvent.Lib

def topLevel : Nat := twLevels - 1

def lap : Nat := slots * interval topLevel

/-! ## One bucket -/

/-- What a visit leaves alone: the time, the queue, the timers that are not due, every
expiry, and what the log says about the draining. -/
structure Visited (w w' : TimerWheel) : Prop where
  time : w'.currentTime = w.currentTime
  queue : w'.timerOperationsQueue = w.timerOperationsQueue
  kept : ∀ q, w'.Holds q → w.Holds q
  early : ∀ q, w.Holds q → w.currentTime < (w.mem q).expiryTime → w'.Holds q
  expiry : ∀ q, (w'.mem q).expiryTime = (w.mem q).expiryTime
  drained : ∀ id e c, Event.drained id e c ∈ w'.log → Event.drained id e c ∈ w.log

def Emptying (w : TimerWheel) (level slot : Nat) : Prop :=
  ∀ p ∈ w.buckets level slot, w.currentTime < (w.mem p).expiryTime →
    w.place (w.mem p).expiryTime ≠ (level, slot)

theorem place_of_time {w w' : TimerWheel} (h : w'.currentTime = w.currentTime) (e : Nat) :
    w'.place e = w.place e := by
  unfold place
  rw [h]

section Round

variable {w w' w'' : TimerWheel} {level slot : Nat} {p : Ptr} {tail : List Ptr}

theorem Visited.refl (w : TimerWheel) : Visited w w :=
  ⟨rfl, rfl, fun _ h => h, fun _ h _ => h, fun _ => rfl, fun _ _ _ h => h⟩

theorem Visited.trans (h : Visited w w') (h' : Visited w' w'') : Visited w w'' := by
  refine ⟨h'.time.trans h.time, h'.queue.trans h.queue, fun q hq => h.kept q (h'.kept q hq), ?_,
    fun q => (h'.expiry q).trans (h.expiry q),
    fun id e c hmem => h.drained id e c (h'.drained id e c hmem)⟩
  intro q hq hearly
  apply h'.early q (h.early q hq hearly)
  rw [h.time, h.expiry q]
  exact hearly

theorem Visited.deleteIf (h : Visited w w') (heap : Bool) (p : Ptr) :
    Visited w (w'.deleteIf heap p) := by
  cases heap with
  | false => exact h
  | true =>
      refine ⟨h.time, h.queue, h.kept, h.early, h.expiry, fun id e c hmem => ?_⟩
      rcases List.mem_cons.mp hmem with heq | hmem
      · cases heq
      · exact h.drained id e c hmem

/-- Where a timer of the wheel is, after the timer at the front of a bucket fired or moved. -/
structure Popped (w w' : TimerWheel) (p : Ptr) : Prop where
  visited : Visited w w'
  buckets : ∀ level slot q, q ∈ w'.buckets level slot →
    (q ∈ w.buckets level slot ∧ q ≠ p) ∨
      (q = p ∧ w.currentTime < (w.mem p).expiryTime ∧
        w.place (w.mem p).expiryTime = (level, slot))
  stays : ∀ level slot q, q ∈ w.buckets level slot → q ≠ p → q ∈ w'.buckets level slot
  back : ∀ level slot, w.currentTime < (w.mem p).expiryTime →
    w.place (w.mem p).expiryTime = (level, slot) → p ∈ w'.buckets level slot

theorem popped_round (h : Inv w) (hbucket : w.buckets level slot = p :: tail) :
    Popped w ((w.visit p).swapPopAt level slot 0) p := by
  have hholds := holds_of_bucket hbucket
  rcases Nat.lt_or_ge w.currentTime (w.mem p).expiryTime with hearly | hdue
  · rw [round_early h hbucket hearly]
    obtain ⟨hmoved, hbooks⟩ := relinked_fields h hbucket
    refine ⟨⟨congrArg Books.currentTime hbooks, congrArg Books.timerOperationsQueue hbooks,
      fun q hq => ?_, fun q hq _ => ?_, fun q => ?_, fun id e c hmem => ?_⟩, fun level slot q hq => ?_, fun level slot q hq hne => ?_, fun level slot _ hplace => ?_⟩
    · rcases (hmoved.holds_iff q).mp hq with ⟨hold, -⟩ | ⟨rfl, -⟩
      · exact hold
      · exact hholds
    · apply (hmoved.holds_iff q).mpr
      by_cases hqp : q = p
      · exact .inr ⟨hqp, Option.some_ne_none _⟩
      · exact .inl ⟨hq, hqp⟩
    · by_cases hqp : q = p
      · rw [hqp]
        exact Timer.expiryTime_of_unplaced hmoved.self
      · exact hmoved.expiryTime_of_ne hqp
    · rwa [show (((w.touch p).addTimerToWheel p (w.mem p).expiryTime).swapPopAt level slot 0).log
        = w.log from congrArg Books.log hbooks] at hmem
    · rcases (hmoved.buckets level slot q).mp hq with hold | ⟨heq, htarget⟩
      · exact .inl hold
      · exact .inr ⟨heq, hearly, Option.some.inj htarget⟩
    · exact (hmoved.buckets level slot q).mpr (.inl ⟨hq, hne⟩)
    · exact (hmoved.buckets level slot p).mpr (.inr ⟨rfl, congrArg some hplace⟩)
  · rw [round_due h hbucket hdue]
    obtain ⟨hmoved, hbooks, -⟩ := popFired_fields h hbucket
    have hvisited : Visited w (popFired w level slot p) := by
      refine ⟨congrArg Books.currentTime hbooks, congrArg Books.timerOperationsQueue hbooks,
        fun q hq => ?_, fun q hq hearly => ?_, fun q => ?_, fun id e c hmem => ?_⟩
      · rcases (hmoved.holds_iff q).mp hq with ⟨hold, -⟩ | ⟨-, habs⟩
        · exact hold
        · exact absurd rfl habs
      · refine (hmoved.holds_iff q).mpr (.inl ⟨hq, ?_⟩)
        rintro rfl
        omega
      · by_cases hqp : q = p
        · have hself := Timer.expiryTime_of_unplaced hmoved.self
          rw [hqp]
          exact hself
        · exact hmoved.expiryTime_of_ne hqp
      · rw [show (popFired w level slot p).log = _ from congrArg Books.log hbooks] at hmem
        rcases List.mem_cons.mp hmem with heq | hmem
        · cases heq
        · exact hmem
    obtain ⟨hb, -⟩ := deleteIf_same (popFired w level slot p) (w.mem p).heap p
    refine ⟨hvisited.deleteIf _ _, fun level slot q hq => ?_, fun level slot q hq hne => ?_,
      fun _ _ hearly _ => absurd hearly (Nat.not_lt.mpr hdue)⟩
    · rw [hb] at hq
      rcases (hmoved.buckets level slot q).mp hq with hold | ⟨-, habs⟩
      · exact .inl hold
      · cases habs
    · rw [hb]
      exact (hmoved.buckets level slot q).mpr (.inl ⟨hq, hne⟩)

/-- A visit ends when no timer goes back to its bucket. -/
theorem processSlot_returns (k : Nat) :
    ∀ {w : TimerWheel}, Inv w → Emptying w level slot → (w.buckets level slot).length ≤ k →
      ∃ w', (∀ fuel, k < fuel → processSlot level slot fuel w = some w') ∧ Visited w w' := by
  induction k with
  | zero =>
      intro w _ _ hlen
      have hnil := List.eq_nil_of_length_eq_zero (Nat.le_zero.mp hlen)
      refine ⟨w, fun fuel hfuel => ?_, .refl w⟩
      obtain ⟨fuel, rfl⟩ : ∃ f, fuel = f + 1 := ⟨fuel - 1, by omega⟩
      rw [processSlot, hnil]
  | succ k ih =>
      intro w h hempty hlen
      cases hbucket : w.buckets level slot with
      | nil =>
          refine ⟨w, fun fuel hfuel => ?_, .refl w⟩
          obtain ⟨fuel, rfl⟩ : ∃ f, fuel = f + 1 := ⟨fuel - 1, by omega⟩
          rw [processSlot, hbucket]
      | cons p tail =>
          have hround := popped_round h hbucket
          have hinv : Inv ((w.visit p).swapPopAt level slot 0) :=
            h.effects (round_effects (show Policy.any.advancing from trivial) h hbucket)
          have hp : p ∈ w.buckets level slot := by rw [hbucket]; exact List.mem_cons_self
          -- what is in the bucket now was there and is not `p`
          have hsub : ∀ q ∈ ((w.visit p).swapPopAt level slot 0).buckets level slot,
              q ∈ w.buckets level slot ∧ q ≠ p := by
            intro q hq
            rcases hround.buckets level slot q hq with hold | ⟨-, hearly, hplace⟩
            · exact hold
            · exact absurd hplace (hempty p hp hearly)
          have hempty' : Emptying ((w.visit p).swapPopAt level slot 0) level slot := by
            intro q hq hearly
            rw [hround.visited.expiry q] at hearly ⊢
            rw [hround.visited.time] at hearly
            rw [place_of_time hround.visited.time]
            exact hempty q (hsub q hq).1 hearly
          have hshort : (((w.visit p).swapPopAt level slot 0).buckets level slot).length ≤ k := by
            have htail : ((w.visit p).swapPopAt level slot 0).buckets level slot ⊆ tail := by
              intro q hq
              obtain ⟨hold, hne⟩ := hsub q hq
              rw [hbucket] at hold
              exact (List.mem_cons.mp hold).resolve_left hne
            have hle := ((hinv.linked.nodup level slot).subperm htail).length_le
            rw [hbucket, List.length_cons] at hlen
            omega
          obtain ⟨w', hrun, hvisited⟩ := ih hinv hempty' hshort
          refine ⟨w', fun fuel hfuel => ?_, hround.visited.trans hvisited⟩
          obtain ⟨fuel, rfl⟩ : ∃ f, fuel = f + 1 := ⟨fuel - 1, by omega⟩
          rw [processSlot, hbucket]
          exact hrun fuel (by omega)

/-- A timer that goes back to its bucket keeps the visit from ending. -/
theorem processSlot_stuck (fuel : Nat) :
    ∀ {w : TimerWheel}, Inv w → p ∈ w.buckets level slot →
      w.currentTime < (w.mem p).expiryTime → w.place (w.mem p).expiryTime = (level, slot) →
      processSlot level slot fuel w = none := by
  induction fuel with
  | zero => intro w _ _ _ _; rfl
  | succ fuel ih =>
      intro w h hp hearly hplace
      cases hbucket : w.buckets level slot with
      | nil => rw [hbucket] at hp; cases hp
      | cons q tail =>
          have hround := popped_round h hbucket
          have heffects : Effects Policy.any w ((w.visit q).swapPopAt level slot 0) :=
            round_effects trivial h hbucket
          rw [processSlot, hbucket]
          apply ih (h.effects heffects)
          · by_cases hqp : p = q
            · rw [← hqp] at hround ⊢
              exact hround.back level slot hearly hplace
            · exact hround.stays level slot p hp hqp
          · rw [hround.visited.time, hround.visited.expiry]
            exact hearly
          · rw [place_of_time hround.visited.time, hround.visited.expiry]
            exact hplace

theorem processSlot_visited (fuel : Nat) :
    ∀ {w w' : TimerWheel}, Inv w → processSlot level slot fuel w = some w' → Visited w w' := by
  induction fuel with
  | zero => intro w w' _ hrun; cases hrun
  | succ fuel ih =>
      intro w w' h hrun
      rw [processSlot] at hrun
      cases hbucket : w.buckets level slot with
      | nil =>
          rw [hbucket] at hrun
          obtain rfl := Option.some.inj hrun
          exact .refl w
      | cons q tail =>
          rw [hbucket] at hrun
          have heffects : Effects Policy.any w ((w.visit q).swapPopAt level slot 0) :=
            round_effects trivial h hbucket
          exact (popped_round h hbucket).visited.trans (ih (h.effects heffects) hrun)

end Round

/-! ## Where a timer waits -/

/-- A timer that is not due is in the slot of its expiry, and below the top level
less than the reach of its level ahead. -/
def Near (w : TimerWheel) : Prop :=
  ∀ level slot p, p ∈ w.buckets level slot → w.currentTime < (w.mem p).expiryTime →
    slot = (w.mem p).expiryTime / interval level % slots ∧
      (level < topLevel → (w.mem p).expiryTime < w.currentTime + interval (level + 1))

theorem findLevel_reach (diff : Nat) :
    ∀ left level, findLevel diff left level < level + left →
      diff < interval (findLevel diff left level + 1) := by
  intro left
  induction left with
  | zero => intro level h; exact absurd h (Nat.lt_irrefl _)
  | succ left ih =>
      intro level h
      rw [findLevel] at h ⊢
      split
      · next hge =>
          rw [if_pos hge] at h
          exact ih (level + 1) (by omega)
      · next hlt =>
          rw [interval_succ]
          exact Nat.not_le.mp hlt

theorem interval_le {level level' : Nat} (h : level ≤ level') : interval level ≤ interval level' :=
  Nat.pow_le_pow_right (by decide) h

theorem place_slot {w : TimerWheel} {e : Nat} (hearly : w.currentTime < e) :
    (w.place e).2 = e / interval (w.place e).1 % slots := by
  unfold place
  simp only [if_pos hearly]
  rw [if_neg (by omega)]

theorem place_reach {w : TimerWheel} {e : Nat} (hearly : w.currentTime < e) :
    (interval (w.place e).1 ≤ e - w.currentTime ∨ (w.place e).1 = 0) ∧
      ((w.place e).1 < topLevel → e < w.currentTime + interval ((w.place e).1 + 1)) := by
  unfold place
  simp only [if_pos hearly]
  refine ⟨(findLevel_spec _ _ 0 (.inr rfl)).1, fun hlevel => ?_⟩
  have hreach := findLevel_reach (e - w.currentTime) (twLevels - 1) 0 (by
    rw [Nat.zero_add]
    exact hlevel)
  omega

/-- A timer a lap or more ahead is put at the top level. -/
theorem place_far {w : TimerWheel} {e : Nat} (hfar : w.currentTime + lap ≤ e) :
    (w.place e).1 = topLevel := by
  have hlap : interval topLevel ≤ lap := Nat.le_mul_of_pos_left _ (by decide)
  have hpos : 0 < lap := by decide
  have hlt : (w.place e).1 < twLevels := (place_lt w e).1
  have htop : topLevel + 1 = twLevels := rfl
  by_contra hne
  have hlevel : (w.place e).1 < topLevel := by omega
  have hreach := (place_reach (w := w) (e := e) (by omega)).2 hlevel
  have hle : interval ((w.place e).1 + 1) ≤ interval topLevel := interval_le hlevel
  omega

section Near

variable {policy : Policy} {clock : Clock} {w w' : TimerWheel} {p : Ptr}

theorem Near.of_same (h : Near w) (hb : w'.buckets = w.buckets)
    (hm : ∀ q, w.Holds q → (w'.mem q).expiryTime = (w.mem q).expiryTime)
    (htime : w.currentTime ≤ w'.currentTime) : Near w' := by
  intro level slot q hq hearly
  rw [hb] at hq
  rw [hm q ⟨level, slot, hq⟩] at hearly ⊢
  obtain ⟨hslot, hreach⟩ := h level slot q hq (by omega)
  exact ⟨hslot, fun hlevel => Nat.lt_of_lt_of_le (hreach hlevel) (Nat.add_le_add_right htime _)⟩

theorem Near.of_still (h : Near w) (still : Still w w') (htime : w.currentTime ≤ w'.currentTime) :
    Near w' :=
  h.of_same still.buckets (fun q _ => by rw [still.mem]) htime

theorem Near.of_moved (h : Near w) {target : Option (Nat × Nat)} {f : Timer → Timer} {e : Nat}
    (moved : Moved w w' p target f) (hself : (f (w.mem p)).expiryTime = e)
    (htarget : target = none ∨ target = some (w.place e))
    (htime : w'.currentTime = w.currentTime) : Near w' := by
  intro level slot q hq hearly
  rw [htime] at hearly ⊢
  rcases (moved.buckets level slot q).mp hq with ⟨hold, hne⟩ | ⟨rfl, hin⟩
  · rw [Timer.expiryTime_of_unplaced (moved.others q hne)] at hearly ⊢
    exact h level slot q hold hearly
  · have hexpiry : (w'.mem q).expiryTime = e :=
      (Timer.expiryTime_of_unplaced moved.self).trans hself
    rw [hexpiry] at hearly ⊢
    rw [hin] at htarget
    have hplace : (level, slot) = w.place e :=
      Option.some.inj (htarget.resolve_left (Option.some_ne_none _))
    have hslot := place_slot hearly
    have hreach := (place_reach hearly).2
    rw [← hplace] at hslot hreach
    exact ⟨hslot, hreach⟩

theorem Near.effect (hn : Near w) (h : Inv w) (heff : Effect policy w w') : Near w' := by
  cases heff with
  | quiet still books => exact hn.of_still still (congrArg Books.currentTime books).ge
  | refresh hb hm books =>
      exact hn.of_same hb (fun _ _ => by rw [hm]) (congrArg Books.currentTime books).ge
  | note e _ still books => exact hn.of_still still (congrArg Books.currentTime books).ge
  | refused id _ _ still books => exact hn.of_still still (congrArg Books.currentTime books).ge
  | update id newDur still books =>
      exact hn.of_still still (congrArg Books.currentTime books).ge
  | remove id done _ still books =>
      exact hn.of_still still (congrArg Books.currentTime books).ge
  | add p t expiry ok hb hm books =>
      refine hn.of_same hb (fun q hq => ?_) (congrArg Books.currentTime books).ge
      have hne : q ≠ p := by
        rintro rfl
        exact ok.unmapped _ (h.known q hq).2
      rw [hm, Function.update_of_ne hne]
  | pendCancel id _ _ _ _ still books =>
      exact hn.of_still still (congrArg Books.currentTime books).ge
  | pendDetach id _ _ _ _ still books =>
      exact hn.of_still still (congrArg Books.currentTime books).ge
  | pendRemove id done rest plain released _ _ _ _ still books =>
      exact hn.of_still still (congrArg Books.currentTime books).ge
  | release id _ _ still books => exact hn.of_still still (congrArg Books.currentTime books).ge
  | pop op rest _ _ still books => exact hn.of_still still (congrArg Books.currentTime books).ge
  | dropDetached p id rest _ _ still books =>
      exact hn.of_still still (congrArg Books.currentTime books).ge
  | dropCancelled p id rest _ _ _ hb hm books =>
      exact hn.of_same hb (fun _ _ => by rw [hm]) (congrArg Books.currentTime books).ge
  | accept p id rest _ _ _ moved books =>
      exact hn.of_moved moved rfl (.inr rfl) (congrArg Books.currentTime books)
  | rearm id p newDur expiry _ moved books =>
      exact hn.of_moved moved rfl (.inr rfl) (congrArg Books.currentTime books)
  | unlink id p e _ _ moved books =>
      exact hn.of_moved moved rfl (.inl rfl) (congrArg Books.currentTime books)
  | fire p _ _ _ moved books =>
      exact hn.of_moved moved rfl (.inl rfl) (congrArg Books.currentTime books)
  | relink p _ _ _ moved books =>
      exact hn.of_moved moved rfl (.inr rfl) (congrArg Books.currentTime books)
  | pass _ still books =>
      have htime : w'.currentTime = w.currentTime + 1 := congrArg Books.currentTime books
      exact hn.of_still still (by omega)

theorem Near.effects (hn : Near w) (h : Inv w) (heffs : Effects policy w w') : Near w' := by
  induction heffs with
  | refl => exact hn
  | tail hpre heff ih => exact ih.effect (h.effects hpre) heff

theorem near_new (clock : Clock) : Near (TimerWheel.new clock) := by
  intro level slot p hp
  cases hp

end Near

/-! ## The visits of a tick -/

/-- At `v` a bucket of the top level is visited in which `p` waits for a time a lap
or more after `v`. -/
structure Laps (w : TimerWheel) (p : Ptr) (v : Nat) : Prop where
  begins : v % interval topLevel = 0
  waits : p ∈ w.buckets topLevel (v / interval topLevel % slots)
  far : v + lap ≤ (w.mem p).expiryTime

section Visits

variable {w w' : TimerWheel} {level n : Nat} {p : Ptr}

/-- A timer less than a lap ahead, in a bucket whose unit begins now, leaves it. -/
theorem place_ne_of_near (hearly : w.currentTime < n) (hmod : w.currentTime % interval level = 0)
    (hslot : n / interval level % slots = w.currentTime / interval level % slots)
    (hreach : n < w.currentTime + interval level * slots) :
    (w.place n).1 < level := by
  have hpos := interval_pos level
  have hdiv : w.currentTime = w.currentTime / interval level * interval level :=
    (Nat.div_mul_cancel (Nat.dvd_of_mod_eq_zero hmod)).symm
  have hunit : n / interval level = w.currentTime / interval level := by
    apply Lap.eq_of_mod_eq (Nat.div_le_div_right hearly.le) _ hslot
    rw [Nat.div_lt_iff_lt_mul hpos, Nat.add_mul, ← hdiv, Nat.mul_comm slots]
    exact hreach
  have hnext : n < w.currentTime + interval level := by
    have hlt := Lap.lt_floor_add hpos n
    unfold Lap.floor at hlt
    rwa [hunit, ← hdiv] at hlt
  have hchosen := (place_reach hearly).1
  by_contra hle
  have hmono : interval level ≤ interval (w.place n).1 := interval_le (Nat.not_lt.mp hle)
  rcases hchosen with hge | hzero
  · omega
  · have hone : interval level ≤ 1 := by
      rw [hzero] at hmono
      exact hmono
    omega

/-- At a visit below the top level, and at the top level when no timer waits for a
later lap, the bucket can be emptied. -/
theorem Near.emptying (hn : Near w) (hmod : w.currentTime % interval level = 0)
    (hle : level ≤ topLevel) (hnone : level = topLevel → ∀ p, ¬Laps w p w.currentTime) :
    Emptying w level (w.currentTime / interval level % slots) := by
  intro p hp hearly hplace
  obtain ⟨hslot, hreach⟩ := hn _ _ p hp hearly
  have hlower : (w.place (w.mem p).expiryTime).1 < level := by
    apply place_ne_of_near hearly hmod hslot.symm
    rcases Nat.lt_or_eq_of_le hle with hlt | heq
    · rw [← interval_succ]
      exact hreach hlt
    · by_contra hfar
      apply hnone heq p
      rw [heq] at hmod hp hfar
      refine ⟨hmod, hp, ?_⟩
      rw [Nat.mul_comm] at hfar
      exact Nat.not_lt.mp hfar
  rw [hplace] at hlower
  exact absurd hlower (Nat.lt_irrefl _)

/-- Below the top level nothing is so far ahead. -/
theorem laps_iff (h : Inv w) (hn : Near w) {v : Nat} (hv : w.currentTime ≤ v) :
    Laps w p v ↔ w.Holds p ∧ v % interval topLevel = 0 ∧
      (w.mem p).expiryTime / interval topLevel % slots = v / interval topLevel % slots ∧
      v + lap ≤ (w.mem p).expiryTime := by
  have hpos : 0 < lap := by decide
  constructor
  · intro hlaps
    have hfar := hlaps.far
    have hslot := (hn _ _ p hlaps.waits (by omega)).1
    exact ⟨⟨_, _, hlaps.waits⟩, hlaps.begins, hslot.symm, hfar⟩
  · rintro ⟨⟨level, slot, hp⟩, hbegins, hslot, hfar⟩
    obtain ⟨hslot', hreach⟩ := hn level slot p hp (by omega)
    have hlevel : level = topLevel := by
      have hle : level ≤ topLevel := Nat.le_of_lt_succ (h.linked.of_mem hp).2.2.2.1
      by_contra hne
      have hlt : level < topLevel := by omega
      have hmono : interval (level + 1) ≤ interval topLevel := interval_le hlt
      have hlap : interval topLevel ≤ lap := Nat.le_mul_of_pos_left _ (by decide)
      have hnear := hreach hlt
      omega
    refine ⟨hbegins, ?_, hfar⟩
    rw [← hslot, ← hlevel, ← hslot']
    exact hp

theorem laps_of_visited (h : Inv w) (hn : Near w) (h' : Inv w') (hn' : Near w')
    (hvisited : Visited w w') {v : Nat} (hv : w.currentTime ≤ v) :
    Laps w' p v ↔ Laps w p v := by
  have hpos : 0 < lap := by decide
  rw [laps_iff h hn hv, laps_iff h' hn' (hvisited.time.trans_le hv), hvisited.expiry]
  constructor
  · rintro ⟨hp, hrest⟩
    exact ⟨hvisited.kept p hp, hrest⟩
  · rintro ⟨hp, hbegins, hslot, hfar⟩
    exact ⟨hvisited.early p hp (by omega), hbegins, hslot, hfar⟩

/-- A timer that waits for a later lap keeps the visit to its bucket from ending. -/
theorem Laps.stuck (hlaps : Laps w p w.currentTime) (h : Inv w) (hn : Near w) (fuel : Nat) :
    processSlot topLevel (w.currentTime / interval topLevel % slots) fuel w = none := by
  have hpos : 0 < lap := by decide
  have hfar := hlaps.far
  have hearly : w.currentTime < (w.mem p).expiryTime := by omega
  apply processSlot_stuck fuel h hlaps.waits hearly
  have hlevel := place_far hfar
  have hslot := place_slot hearly
  rw [hlevel, ← (hn _ _ p hlaps.waits hearly).1] at hslot
  exact Prod.ext hlevel hslot

theorem cascade_visited (fuel : Nat) (level : Nat) :
    ∀ {w w' : TimerWheel}, Inv w → cascade fuel level w = some w' → Visited w w' := by
  induction level with
  | zero =>
      intro w w' _ hrun
      obtain rfl := Option.some.inj hrun
      exact .refl w
  | succ level ih =>
      intro w w' h hrun
      rw [cascade] at hrun
      split at hrun
      · exact ih h hrun
      · cases hslot : processSlot (level + 1)
            (w.currentTime / interval (level + 1) % slots) fuel w with
        | none => rw [hslot] at hrun; cases hrun
        | some w₁ =>
            rw [hslot] at hrun
            have heffects : Effects Policy.any w w₁ := processSlot_effects trivial fuel h hslot
            exact (processSlot_visited fuel h hslot).trans (ih (h.effects heffects) hrun)

def passed (w : TimerWheel) : TimerWheel := { w with currentTime := w.currentTime + 1 }

theorem passed_effect (w : TimerWheel) : Effect Policy.any w (passed w) :=
  .pass trivial ⟨rfl, rfl, rfl, rfl, fun _ => rfl⟩ rfl

theorem advance_visited (h : Inv w) {fuel : Nat} (hrun : advance fuel w = some w') :
    Visited (passed w) w' := by
  have hpassed : Inv (passed w) := h.effect (passed_effect w)
  unfold advance at hrun
  cases hcas : cascade fuel (twLevels - 1) { w with currentTime := w.currentTime + 1 } with
  | none => rw [hcas] at hrun; cases hrun
  | some w₁ =>
      rw [hcas] at hrun
      have heffects : Effects Policy.any (passed w) w₁ :=
        cascade_effects trivial fuel (twLevels - 1) hpassed hcas
      exact (cascade_visited fuel (twLevels - 1) hpassed hcas).trans
        (processSlot_visited fuel (hpassed.effects heffects) hrun)

theorem processSlot_empties (h : Inv w) (hn : Near w) (hmod : w.currentTime % interval level = 0)
    (hle : level ≤ topLevel) (hnone : ∀ p, ¬Laps w p w.currentTime) :
    ∃ enough w', (∀ fuel ≥ enough,
        processSlot level (w.currentTime / interval level % slots) fuel w = some w') ∧
      Visited w w' := by
  have hempty := hn.emptying hmod hle fun _ => hnone
  obtain ⟨w', hrun, hvisited⟩ := processSlot_returns _ h hempty le_rfl
  exact ⟨_, w', fun fuel hfuel => hrun fuel hfuel, hvisited⟩

theorem cascade_returns (level : Nat) :
    ∀ {w : TimerWheel}, level ≤ topLevel → Inv w → Near w → (∀ p, ¬Laps w p w.currentTime) →
      ∃ enough w', ∀ fuel ≥ enough, cascade fuel level w = some w' := by
  induction level with
  | zero => intro w _ _ _ _; exact ⟨0, w, fun _ _ => rfl⟩
  | succ level ih =>
      intro w hle h hn hnone
      by_cases hmod : w.currentTime % interval (level + 1) = 0
      · obtain ⟨enough₁, w₁, hrun₁, hvisited⟩ := processSlot_empties h hn hmod hle hnone
        have heffects : Effects Policy.any w w₁ :=
          processSlot_effects trivial enough₁ h (hrun₁ enough₁ le_rfl)
        have h₁ := h.effects heffects
        have hn₁ := hn.effects h heffects
        have hnone₁ : ∀ p, ¬Laps w₁ p w₁.currentTime := by
          intro p
          rw [hvisited.time, laps_of_visited h hn h₁ hn₁ hvisited le_rfl]
          exact hnone p
        obtain ⟨enough, w', hrun⟩ := ih (by omega) h₁ hn₁ hnone₁
        refine ⟨max enough₁ enough, w', fun fuel hfuel => ?_⟩
        rw [cascade, if_neg (not_not.mpr hmod), hrun₁ fuel (by omega)]
        exact hrun fuel (by omega)
      · obtain ⟨enough, w', hrun⟩ := ih (by omega) h hn hnone
        refine ⟨enough, w', fun fuel hfuel => ?_⟩
        rw [cascade, if_pos hmod]
        exact hrun fuel hfuel

/-- An advance returns when no timer waits for a later lap in a bucket it visits. -/
theorem advance_returns (h : Inv w) (hn : Near w)
    (hnone : ∀ p, ¬Laps w p (w.currentTime + 1)) :
    ∃ enough w', ∀ fuel ≥ enough, advance fuel w = some w' := by
  have h₀ := h.effect (passed_effect w)
  have hn₀ := hn.effect h (passed_effect w)
  have hnone₀ : ∀ p, ¬Laps (passed w) p (passed w).currentTime :=
    fun p hlaps => hnone p ⟨hlaps.begins, hlaps.waits, hlaps.far⟩
  obtain ⟨enough₁, w₁, hrun₁⟩ := cascade_returns topLevel le_rfl h₀ hn₀ hnone₀
  have heffects : Effects Policy.any (passed w) w₁ :=
    cascade_effects trivial enough₁ topLevel h₀ (hrun₁ enough₁ le_rfl)
  have hvisited := cascade_visited enough₁ topLevel h₀ (hrun₁ enough₁ le_rfl)
  have h₁ := h₀.effects heffects
  have hn₁ := hn₀.effects h₀ heffects
  have hnone₁ : ∀ p, ¬Laps w₁ p w₁.currentTime := by
    intro p
    rw [hvisited.time, laps_of_visited h₀ hn₀ h₁ hn₁ hvisited le_rfl]
    exact hnone₀ p
  obtain ⟨enough, w', hrun, -⟩ :=
    processSlot_empties h₁ hn₁ (Nat.mod_one _) (Nat.zero_le topLevel) hnone₁
  refine ⟨max enough₁ enough, w', fun fuel hfuel => ?_⟩
  have hcas : cascade fuel (twLevels - 1) { w with currentTime := w.currentTime + 1 } = some w₁ :=
    hrun₁ fuel (by omega)
  unfold advance
  rw [hcas]
  dsimp only
  have hslot : w₁.currentTime / interval 0 % slots = w₁.currentTime % slots :=
    congrArg (· % slots) (Nat.div_one _)
  rw [← hslot]
  exact hrun fuel (by omega)

theorem advance_stuck (h : Inv w) (hn : Near w) (hlaps : Laps w p (w.currentTime + 1))
    (fuel : Nat) : advance fuel w = none := by
  have h₀ := h.effect (passed_effect w)
  have hn₀ := hn.effect h (passed_effect w)
  have hlaps₀ : Laps (passed w) p (passed w).currentTime :=
    ⟨hlaps.begins, hlaps.waits, hlaps.far⟩
  have hcas : cascade fuel topLevel (passed w) = none := by
    change cascade fuel (2 + 1) (passed w) = none
    have hbegins : (passed w).currentTime % interval (2 + 1) = 0 := hlaps₀.begins
    have hslot : processSlot (2 + 1) ((passed w).currentTime / interval (2 + 1) % slots) fuel
        (passed w) = none := hlaps₀.stuck h₀ hn₀ fuel
    rw [cascade, if_neg (not_not.mpr hbegins), hslot]
  unfold advance
  rw [show cascade fuel (twLevels - 1) { w with currentTime := w.currentTime + 1 } = none from hcas]

/-- What waits for a later lap before an advance still does after it. -/
theorem laps_of_advance (h : Inv w) (hn : Near w) {fuel : Nat} (hrun : advance fuel w = some w')
    {v : Nat} (hv : w.currentTime < v) : Laps w' p v ↔ Laps w p v := by
  have h₀ := h.effect (passed_effect w)
  have hn₀ := hn.effect h (passed_effect w)
  have heffects : Effects Policy.any w w' := advance_effects trivial h hrun
  have hsame := laps_of_visited (p := p) h₀ hn₀ (h.effects heffects) (hn.effects h heffects)
    (advance_visited h hrun) (v := v) hv
  rw [hsame]
  exact ⟨fun hlaps => ⟨hlaps.begins, hlaps.waits, hlaps.far⟩,
    fun hlaps => ⟨hlaps.begins, hlaps.waits, hlaps.far⟩⟩

theorem advanceBy_returns (rounds : Nat) :
    ∀ {w : TimerWheel}, Inv w → Near w →
      (∀ p v, w.currentTime < v → v ≤ w.currentTime + rounds → ¬Laps w p v) →
      ∃ enough w', ∀ fuel ≥ enough, advanceBy fuel rounds w = some w' := by
  induction rounds with
  | zero => intro w _ _ _; exact ⟨0, w, fun _ _ => rfl⟩
  | succ rounds ih =>
      intro w h hn hnone
      obtain ⟨enough₁, w₁, hrun₁⟩ := advance_returns h hn fun p => hnone p _ (by omega) (by omega)
      have hadv := hrun₁ enough₁ le_rfl
      have heffects : Effects Policy.any w w₁ := advance_effects trivial h hadv
      have htime : w₁.currentTime = w.currentTime + 1 := (advance_visited h hadv).time
      obtain ⟨enough, w', hrun⟩ := ih (h.effects heffects) (hn.effects h heffects)
        fun p v hlow hhigh hlaps =>
          hnone p v (by omega) (by omega) ((laps_of_advance h hn hadv (by omega)).mp hlaps)
      refine ⟨max enough₁ enough, w', fun fuel hfuel => ?_⟩
      rw [advanceBy, hrun₁ fuel (by omega)]
      exact hrun fuel (by omega)

theorem advanceBy_stuck (rounds : Nat) :
    ∀ {w : TimerWheel} {v : Nat}, Inv w → Near w → w.currentTime < v →
      v ≤ w.currentTime + rounds → Laps w p v → ∀ fuel, advanceBy fuel rounds w = none := by
  induction rounds with
  | zero => intro w v _ _ hlow hhigh; omega
  | succ rounds ih =>
      intro w v h hn hlow hhigh hlaps fuel
      rw [advanceBy]
      cases hadv : advance fuel w with
      | none => rfl
      | some w₁ =>
          have heffects : Effects Policy.any w w₁ := advance_effects trivial h hadv
          have htime : w₁.currentTime = w.currentTime + 1 := (advance_visited h hadv).time
          have hne : v ≠ w.currentTime + 1 := by
            rintro rfl
            rw [advance_stuck h hn hlaps fuel] at hadv
            cases hadv
          exact ih (h.effects heffects) (hn.effects h heffects) (by omega) (by omega)
            ((laps_of_advance h hn hadv hlow).mpr hlaps) fuel

end Visits

/-! ## Timers drained within reach -/

/-- Every timer was drained at most a lap, in units of the top level, before its expiry. -/
def InReach (log : List Event) : Prop :=
  ∀ id e c, Event.drained id e c ∈ log → e / interval topLevel ≤ c / interval topLevel + slots

def Within (w : TimerWheel) : Prop :=
  ∀ p, w.Holds p →
    (w.mem p).expiryTime / interval topLevel ≤ w.currentTime / interval topLevel + slots

section Within

variable {policy : Policy} {w w' : TimerWheel} {p : Ptr}

theorem Within.no_laps (h : Within w) {v : Nat} (hv : w.currentTime < v) : ¬Laps w p v := by
  intro hlaps
  have hpos : 0 < interval topLevel := interval_pos topLevel
  have hheld := h p ⟨_, _, hlaps.waits⟩
  have hunit : v = v / interval topLevel * interval topLevel :=
    (Nat.div_mul_cancel (Nat.dvd_of_mod_eq_zero hlaps.begins)).symm
  have hlater : w.currentTime / interval topLevel < v / interval topLevel := by
    rw [Nat.div_lt_iff_lt_mul hpos, ← hunit]
    exact hv
  have hfar : v / interval topLevel + slots ≤ (w.mem p).expiryTime / interval topLevel := by
    rw [Nat.le_div_iff_mul_le hpos, Nat.add_mul, ← hunit]
    exact hlaps.far
  omega

theorem Within.of_same (h : Within w) (hholds : ∀ q, w'.Holds q → w.Holds q)
    (hm : ∀ q, w.Holds q → (w'.mem q).expiryTime = (w.mem q).expiryTime)
    (htime : w.currentTime ≤ w'.currentTime) : Within w' := by
  intro q hq
  rw [hm q (hholds q hq)]
  have hunits : w.currentTime / interval topLevel ≤ w'.currentTime / interval topLevel :=
    Nat.div_le_div_right htime
  have hheld := h q (hholds q hq)
  omega

theorem Within.of_still (h : Within w) (still : Still w w')
    (htime : w.currentTime ≤ w'.currentTime) : Within w' := by
  refine h.of_same (fun q hq => ?_) (fun q _ => by rw [still.mem]) htime
  unfold Holds at hq ⊢
  rwa [still.buckets] at hq

theorem Within.of_moved (h : Within w) {target : Option (Nat × Nat)} {f : Timer → Timer}
    (moved : Moved w w' p target f) (htime : w'.currentTime = w.currentTime)
    (hin : target ≠ none → (f (w.mem p)).expiryTime / interval topLevel ≤
      w.currentTime / interval topLevel + slots) : Within w' := by
  intro q hq
  rw [htime]
  rcases (moved.holds_iff q).mp hq with ⟨hold, hne⟩ | ⟨rfl, htarget⟩
  · rw [moved.expiryTime_of_ne hne]
    exact h q hold
  · rw [Timer.expiryTime_of_unplaced moved.self]
    exact hin htarget

theorem Within.effect (hw : Within w) (h : Inv w) (heff : Effect policy w w')
    (hreach : InReach w'.log) : Within w' := by
  have hsame : w'.buckets = w.buckets → ∀ q, w'.Holds q → w.Holds q := by
    intro hb q hq
    unfold Holds at hq ⊢
    rwa [hb] at hq
  cases heff with
  | quiet still books => exact hw.of_still still (congrArg Books.currentTime books).ge
  | refresh hb hm books =>
      exact hw.of_same (hsame hb) (fun _ _ => by rw [hm]) (congrArg Books.currentTime books).ge
  | note e _ still books => exact hw.of_still still (congrArg Books.currentTime books).ge
  | refused id _ _ still books => exact hw.of_still still (congrArg Books.currentTime books).ge
  | update id newDur still books =>
      exact hw.of_still still (congrArg Books.currentTime books).ge
  | remove id done _ still books =>
      exact hw.of_still still (congrArg Books.currentTime books).ge
  | add p t expiry ok hb hm books =>
      refine hw.of_same (hsame hb) (fun q hq => ?_) (congrArg Books.currentTime books).ge
      have hne : q ≠ p := by
        rintro rfl
        exact ok.unmapped _ (h.known q hq).2
      rw [hm, Function.update_of_ne hne]
  | pendCancel id _ _ _ _ still books =>
      exact hw.of_still still (congrArg Books.currentTime books).ge
  | pendDetach id _ _ _ _ still books =>
      exact hw.of_still still (congrArg Books.currentTime books).ge
  | pendRemove id done rest plain released _ _ _ _ still books =>
      exact hw.of_still still (congrArg Books.currentTime books).ge
  | release id _ _ still books => exact hw.of_still still (congrArg Books.currentTime books).ge
  | pop op rest _ _ still books => exact hw.of_still still (congrArg Books.currentTime books).ge
  | dropDetached p id rest _ _ still books =>
      exact hw.of_still still (congrArg Books.currentTime books).ge
  | dropCancelled p id rest _ _ _ hb hm books =>
      exact hw.of_same (hsame hb) (fun _ _ => by rw [hm]) (congrArg Books.currentTime books).ge
  | accept p id rest _ _ _ moved books =>
      have hlog : w'.log = .drained (w.mem p).id (w.mem p).expiryTime w.currentTime :: w.log :=
        congrArg Books.log books
      refine hw.of_moved moved (congrArg Books.currentTime books) fun _ => ?_
      apply hreach (w.mem p).id
      rw [hlog]
      exact List.mem_cons_self
  | rearm id p newDur expiry _ moved books =>
      have hlog : w'.log = .drained id expiry w.currentTime :: w.log := congrArg Books.log books
      refine hw.of_moved moved (congrArg Books.currentTime books) fun _ => ?_
      apply hreach id
      rw [hlog]
      exact List.mem_cons_self
  | unlink id p e _ _ moved books =>
      exact hw.of_moved moved (congrArg Books.currentTime books) fun habs => absurd rfl habs
  | fire p _ _ _ moved books =>
      exact hw.of_moved moved (congrArg Books.currentTime books) fun habs => absurd rfl habs
  | relink p _ hp _ moved books =>
      exact hw.of_moved moved (congrArg Books.currentTime books) fun _ => hw p hp
  | pass _ still books =>
      have htime : w'.currentTime = w.currentTime + 1 := congrArg Books.currentTime books
      exact hw.of_still still (by omega)

theorem Within.effects (hw : Within w) (h : Inv w) (heffs : Effects policy w w')
    (hreach : InReach w'.log) : Within w' := by
  induction heffs with
  | refl => exact hw
  | @tail b c hpre heff ih =>
      obtain ⟨l, hl⟩ := heff.log_eq
      have hbefore : InReach b.log := fun id e t hmem =>
        hreach id e t (by rw [hl]; exact List.mem_append_right _ hmem)
      exact (ih hbefore).effect (h.effects hpre) heff hreach

end Within

/-! ## Ticks -/

section Ticks

variable {clock : Clock} {w : TimerWheel}

theorem Reachable.near (h : Reachable Policy.any clock w) : Near w :=
  h.induct trivial (near_new clock) fun hinv hn heff => hn.effect hinv heff

theorem within_new (clock : Clock) : Within (TimerWheel.new clock) := by
  rintro p ⟨level, slot, hp⟩
  cases hp

theorem Reachable.within (h : Reachable Policy.any clock w) : InReach w.log → Within w := by
  induction h with
  | start => exact fun _ => within_new clock
  | step hw ok hrun ih =>
      intro hreach
      have hinv := hw.inv trivial
      have heffects : Effects Policy.any _ _ := Call.exec_effects hinv ok (.inl trivial) hrun
      obtain ⟨l, hl⟩ := heffects.log_eq
      have hbefore := ih fun id e c hmem =>
        hreach id e c (by rw [hl]; exact List.mem_append_right _ hmem)
      exact hbefore.effects hinv heffects hreach

theorem processSlot_returns_iff (h : Inv w) (level slot : Nat) :
    (∃ enough w', ∀ fuel ≥ enough, processSlot level slot fuel w = some w') ↔
      Emptying w level slot := by
  constructor
  · rintro ⟨enough, w', hrun⟩ p hp hearly hplace
    have hstuck := processSlot_stuck enough h hp hearly hplace
    rw [hrun enough le_rfl] at hstuck
    cases hstuck
  · intro hempty
    obtain ⟨w', hrun, -⟩ := processSlot_returns _ h hempty le_rfl
    exact ⟨_, w', fun fuel hfuel => hrun fuel hfuel⟩

theorem laps_afterReading {p : Ptr} {v : Nat} : Laps w.afterReading p v ↔ Laps w p v :=
  ⟨fun h => ⟨h.begins, h.waits, h.far⟩, fun h => ⟨h.begins, h.waits, h.far⟩⟩

theorem drained_near (h : Inv w) (hn : Near w) :
    Inv (w.drainOps clock).afterReading ∧ Near (w.drainOps clock).afterReading := by
  have hdrain : Effects Policy.any w (w.drainOps clock).afterReading :=
    (drainOps_effects clock h).tail (afterReading_effect _)
  exact ⟨h.effects hdrain, hn.effects h hdrain⟩

theorem tick_stuck (h : Inv w) (hn : Near w) {p : Ptr} {v : Nat}
    (hlow : (w.drainOps clock).currentTime < v) (hhigh : v ≤ (w.drainOps clock).now clock)
    (hlaps : Laps (w.drainOps clock) p v) (fuel : Nat) : w.tick clock fuel = none := by
  have hdrained : Inv (w.drainOps clock).afterReading ∧
      Near (w.drainOps clock).afterReading := drained_near h hn
  obtain ⟨h₁, hn₁⟩ := hdrained
  have hreach : v ≤ (w.drainOps clock).afterReading.currentTime +
      ((w.drainOps clock).now clock - (w.drainOps clock).currentTime) := by
    change v ≤ (w.drainOps clock).currentTime + _
    omega
  have hstuck := advanceBy_stuck _ h₁ hn₁ hlow hreach (laps_afterReading.mpr hlaps) fuel
  unfold tick
  dsimp only
  rw [if_neg (by omega), hstuck]

/-- `tick` returns when no timer of the drained wheel waits for a later lap in a bucket of the
top level that the tick visits, and only then. -/
theorem tick_returns_iff (h : Inv w) (hn : Near w) :
    (∃ enough w', ∀ fuel ≥ enough, w.tick clock fuel = some w') ↔
      ∀ p v, (w.drainOps clock).currentTime < v → v ≤ (w.drainOps clock).now clock →
        ¬Laps (w.drainOps clock) p v := by
  constructor
  · rintro ⟨enough, w', hrun⟩ p v hlow hhigh hlaps
    have hstuck := tick_stuck h hn hlow hhigh hlaps enough
    rw [hrun enough le_rfl] at hstuck
    cases hstuck
  · intro hnone
    by_cases hnow : (w.drainOps clock).now clock ≤ (w.drainOps clock).currentTime
    · refine ⟨0, (w.drainOps clock).afterReading.refreshNextExpiry, fun fuel _ => ?_⟩
      unfold tick
      dsimp only
      rw [if_pos hnow]
    · have hdrained : Inv (w.drainOps clock).afterReading ∧
          Near (w.drainOps clock).afterReading := drained_near h hn
      obtain ⟨h₁, hn₁⟩ := hdrained
      obtain ⟨enough, w₁, hrun⟩ := advanceBy_returns
        ((w.drainOps clock).now clock - (w.drainOps clock).currentTime) h₁ hn₁
        fun p v hlow hhigh hlaps => by
          change v ≤ (w.drainOps clock).currentTime + _ at hhigh
          exact hnone p v hlow (by omega) (laps_afterReading.mp hlaps)
      refine ⟨enough, w₁.refreshNextExpiry.runFired, fun fuel hfuel => ?_⟩
      unfold tick
      dsimp only
      rw [if_neg hnow, hrun fuel hfuel]

/-- **When a tick returns.**  Between the calls of every run, a visit to a bucket ends exactly
when no timer goes back to that bucket, and the next `tick` returns exactly when no timer waits
for a later lap in a bucket of the top level that the tick visits.  So every `tick` returns in
a run that drains each timer at most a lap, in units of the top level, before its expiry. -/
theorem returns_of_reachable (h : Reachable Policy.any clock w) :
    (∀ level slot, (∃ enough w', ∀ fuel ≥ enough, processSlot level slot fuel w = some w') ↔
      Emptying w level slot) ∧
    ((∃ enough w', ∀ fuel ≥ enough, w.tick clock fuel = some w') ↔
      ∀ p v, (w.drainOps clock).currentTime < v → v ≤ (w.drainOps clock).now clock →
        ¬Laps (w.drainOps clock) p v) ∧
    (InReach (w.drainOps clock).log →
      ∃ enough w', ∀ fuel ≥ enough, w.tick clock fuel = some w') := by
  have hinv : Inv w := h.inv trivial
  refine ⟨processSlot_returns_iff hinv, tick_returns_iff hinv h.near, fun hreach => ?_⟩
  apply (tick_returns_iff hinv h.near).mpr
  intro p v hlow _
  have hdrain : Effects Policy.any w (w.drainOps clock) := drainOps_effects clock hinv
  obtain ⟨l, hl⟩ := hdrain.log_eq
  have hbefore : Within w := h.within fun id e c hmem =>
    hreach id e c (by rw [hl]; exact List.mem_append_right _ hmem)
  exact (hbefore.effects hinv hdrain hreach).no_laps hlow

end Ticks

theorem shortAdded_returns :
    ∃ enough w', ∀ fuel ≥ enough, shortAdded.tick shortClock fuel = some w' := by
  have hlog : (shortAdded.drainOps shortClock).log =
      [.drained 1 2 0, .added 1 0 (.raw 7 9)] := by decide
  apply (returns_of_reachable shortAdded_reachable).2.2
  intro id e c hmem
  rw [hlog] at hmem
  obtain ⟨-, rfl, rfl⟩ : id = 1 ∧ e = 2 ∧ c = 0 := by simpa using hmem
  decide

/-! ## A timer of fifty days -/

/-- The wheel and the timer are made one millisecond before a unit of the top level begins. -/
def farClock : Clock where
  reading i := if i ≤ 1 then 2 ^ 24 - 1 else 2 ^ 24
  monotone := advance_monotone (by decide)
  lt := advance_lt (by decide) (by decide)

def farTimer : Timer := ⟨0, 2 ^ 32 + 1, none, some 7, 9, true, true, 0, 0, 0, 0⟩

def farAdded : TimerWheel := (((TimerWheel.new farClock).arm 0 farTimer).addTimer farClock 0).2

theorem farAdded_reachable : Reachable Policy.any farClock farAdded := by
  have hadd : Call.Ok Policy.any (TimerWheel.new farClock) (.addTimer 0 farTimer) :=
    ⟨rfl, fun _ => by simp [TimerWheel.new], fun _ hmem => by simp [TimerWheel.new] at hmem⟩
  have hissue : (Call.addTimer 0 farTimer).exec farClock 0 (TimerWheel.new farClock) =
      some farAdded := rfl
  exact .step .start hadd hissue

theorem farAdded_laps : Laps (farAdded.drainOps farClock) 0 (2 ^ 24) :=
  ⟨by decide, by decide, by decide⟩

/-- The tick one millisecond later never returns. -/
theorem farAdded_never_returns :
    Reachable Policy.any farClock farAdded ∧ ∀ fuel, farAdded.tick farClock fuel = none := by
  refine ⟨farAdded_reachable, fun fuel => ?_⟩
  apply tick_stuck (farAdded_reachable.inv trivial) farAdded_reachable.near _ _ farAdded_laps fuel
  all_goals decide

end Uvent.Timers
