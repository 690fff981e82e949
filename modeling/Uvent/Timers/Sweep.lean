import Uvent.Timers.Firing

/-!
# One advance of the wheel

At time `n` the buckets whose unit begins at `n` are visited, from the highest
level down.  Every timer found there fires or moves to a bucket visited later,
so each visit ends, and after the last one no timer due at `n` is left.
-/

namespace Uvent.Timers

open TimerWheel Relation Uvent.Lib

structure Sweeping (n : Nat) (w : TimerWheel) : Prop where
  inv : Inv w
  timely : Timely n w
  span : InSpan w.log
  now : w.currentTime = n

/-- The bucket at `level` that holds `p` is visited after `n`. -/
def Later (n : Nat) (w : TimerWheel) (level : Nat) (p : Ptr) : Prop :=
  n < Lap.floor (interval level) (max (w.mem p).expiryTime n)

def SweptFrom (k n : Nat) (w : TimerWheel) : Prop :=
  ∀ level slot p, k ≤ level → p ∈ w.buckets level slot → Later n w level p

section Round

variable {n level slot : Nat} {w w' : TimerWheel} {p : Ptr} {tail : List Ptr}

theorem Sweeping.of_deleteIf (h : Sweeping n w) (heap : Bool) (p : Ptr) :
    Sweeping n (w.deleteIf heap p) := by
  cases heap with
  | false => exact h
  | true =>
      have hnote : Effect Policy.any w (w.record (.deleted p)) := note_effect trivial
      refine ⟨h.inv.effect hnote, ?_, ?_, h.now⟩
      · exact h.timely.of_same h.inv rfl (fun _ _ => rfl) rfl le_rfl fun _ => .inl rfl
      · intro id e c hmem
        rcases List.mem_cons.mp hmem with heq | hmem
        · cases heq
        · exact h.span id e c hmem

theorem deleteIf_same (w : TimerWheel) (heap : Bool) (p : Ptr) :
    (w.deleteIf heap p).buckets = w.buckets ∧ (w.deleteIf heap p).mem = w.mem := by
  cases heap <;> exact ⟨rfl, rfl⟩

theorem Sweeping.popFired (h : Sweeping n w) (hbucket : w.buckets level slot = p :: tail)
    (hdue : (w.mem p).expiryTime ≤ w.currentTime) : Sweeping n (popFired w level slot p) := by
  obtain ⟨hmoved, hbooks, hnext, hdirty⟩ := popFired_fields h.inv hbucket
  have hholds := holds_of_bucket hbucket
  have hlog : (Timers.popFired w level slot p).log =
      .fired (w.mem p).id w.currentTime (w.mem p).payload :: w.log := congrArg Books.log hbooks
  have hfire : Effect Policy.any w (Timers.popFired w level slot p) :=
    .fire p trivial hholds hdue hmoved hbooks hnext hdirty
  refine ⟨h.inv.effect hfire, h.timely.of_fire h.inv h.now hholds hdue hmoved hbooks, ?_,
    (congrArg Books.currentTime hbooks).trans h.now⟩
  intro id e c hmem
  rw [hlog] at hmem
  rcases List.mem_cons.mp hmem with heq | hmem
  · cases heq
  · exact h.span id e c hmem

/-- A timer that moves on goes to a bucket visited after `n`. -/
theorem Sweeping.later_place (h : Sweeping n w) (hp : w.Holds p)
    (hearly : w.currentTime < (w.mem p).expiryTime) :
    n < Lap.floor (interval (w.place (w.mem p).expiryTime).1) (w.mem p).expiryTime ∧
      Placed n (w.place (w.mem p).expiryTime).1 (w.place (w.mem p).expiryTime).2
        (w.mem p).expiryTime := by
  have hlt := h.timely.expiry_lt h.inv h.span hp
  have hnow := h.now
  have hafter := placed_place (w := w) (e := (w.mem p).expiryTime) (n := n + 1)
    (by omega) (by omega) (by omega)
  have hplaced := placed_place (w := w) (e := (w.mem p).expiryTime) (n := n)
    (by omega) (by omega) (by omega)
  rw [max_eq_left (by omega)] at hafter hplaced
  exact ⟨hafter.low, hplaced⟩

theorem Sweeping.place_ne (h : Sweeping n w) (hp : w.Holds p)
    (hearly : w.currentTime < (w.mem p).expiryTime) (hmod : n % interval level = 0) :
    w.place (w.mem p).expiryTime ≠ (level, n / interval level % slots) := by
  intro heq
  obtain ⟨hlater, hplaced⟩ := h.later_place hp hearly
  rw [heq] at hlater hplaced
  have hstart := Lap.floor_eq_of_slot (interval_pos level) hmod hplaced.slot_eq.symm hplaced.low
    hplaced.high
  exact absurd hstart hlater.ne'

theorem Sweeping.relink (h : Sweeping n w) (hbucket : w.buckets level slot = p :: tail)
    (hearly : w.currentTime < (w.mem p).expiryTime) :
    Sweeping n
      (((w.touch p).addTimerToWheel p (w.mem p).expiryTime).swapPopAt level slot 0) := by
  obtain ⟨hmoved, hbooks⟩ := relinked_fields h.inv hbucket
  have hholds := holds_of_bucket hbucket
  obtain ⟨hnext, hdirty⟩ := swapPopAt_next
    ((w.touch p).addTimerToWheel p (w.mem p).expiryTime) level slot 0
  have hrelink : Effect Policy.any w _ :=
    .relink p trivial hholds hearly hmoved hbooks hnext hdirty
  refine ⟨h.inv.effect hrelink,
    h.timely.of_relink h.inv h.span h.now hholds hearly hmoved hbooks, ?_,
    (congrArg Books.currentTime hbooks).trans h.now⟩
  rw [show (((w.touch p).addTimerToWheel p (w.mem p).expiryTime).swapPopAt level slot 0).log =
    w.log from congrArg Books.log hbooks]
  exact h.span

/-- After a round the visited bucket is one shorter, and any timer that was not
where it is now is in a bucket visited after `n`. -/
theorem Sweeping.round (h : Sweeping n w) (hmod : n % interval level = 0)
    (hbucket : w.buckets level (n / interval level % slots) = p :: tail) :
    ∃ w₁, (w.visit p).swapPopAt level (n / interval level % slots) 0 = w₁ ∧ Sweeping n w₁ ∧
      (w₁.buckets level (n / interval level % slots)).length = tail.length ∧
      ∀ level' slot' q, q ∈ w₁.buckets level' slot' → Later n w₁ level' q ∨
        (q ∈ w.buckets level' slot' ∧ (w₁.mem q).expiryTime = (w.mem q).expiryTime) := by
  generalize hslot : n / interval level % slots = slot at hbucket ⊢
  refine ⟨_, rfl, ?_⟩
  rcases Nat.lt_or_ge w.currentTime (w.mem p).expiryTime with hearly | hdue
  · have hholds := holds_of_bucket hbucket
    obtain ⟨hmoved, -⟩ := relinked_fields h.inv hbucket
    rw [round_early h.inv hbucket hearly]
    refine ⟨h.relink hbucket hearly, ?_, ?_⟩
    · have hne := h.place_ne hholds hearly hmod
      rw [hslot] at hne
      have hcomm := relink_comm (w := w.touch p) h.inv.linked (first_of_bucket hbucket) hne
      rw [hcomm.1, addTimerToWheel_buckets]
      have hplace : ((w.touch p).swapPopAt level slot 0).place (w.mem p).expiryTime =
          w.place (w.mem p).expiryTime := by
        unfold place
        rw [show ((w.touch p).swapPopAt level slot 0).currentTime = w.currentTime from
          congrArg Books.currentTime (swapPopAt_books ..)]
      rw [hplace]
      rcases htarget : w.place (w.mem p).expiryTime with ⟨l, s⟩
      rw [htarget] at hne
      rw [setBucket_of_ne _ _ hne.symm, swapPopAt_buckets, setBucket_self, length_swapPop]
      change (w.buckets level slot).length - 1 = tail.length
      rw [hbucket, List.length_cons, Nat.add_sub_cancel]
    · intro level' slot' q hq
      rcases (hmoved.buckets level' slot' q).mp hq with ⟨hold, hne⟩ | ⟨rfl, htarget⟩
      · exact .inr ⟨hold, hmoved.expiryTime_of_ne hne⟩
      · have hself := Timer.expiryTime_of_unplaced hmoved.self
        have hlater := (h.later_place hholds hearly).1
        have hnow := h.now
        rw [Option.some.inj htarget] at hlater
        refine .inl ?_
        unfold Later
        rw [hself, max_eq_left (by omega)]
        exact hlater
  · obtain ⟨hmoved, -⟩ := popFired_fields h.inv hbucket
    obtain ⟨hb, hm⟩ := deleteIf_same (Timers.popFired w level slot p) (w.mem p).heap p
    rw [round_due h.inv hbucket hdue]
    refine ⟨(h.popFired hbucket hdue).of_deleteIf _ _, ?_, ?_⟩
    · rw [hb]
      unfold Timers.popFired
      rw [swapPopAt_buckets, setBucket_self, length_swapPop, (fired_fields (w.touch p) p).1]
      change (w.buckets level slot).length - 1 = tail.length
      rw [hbucket, List.length_cons, Nat.add_sub_cancel]
    · intro level' slot' q hq
      rw [hb] at hq
      rcases (hmoved.buckets level' slot' q).mp hq with ⟨hold, hne⟩ | ⟨-, htarget⟩
      · rw [hm]
        exact .inr ⟨hold, hmoved.expiryTime_of_ne hne⟩
      · contradiction

end Round

/-! ## Visits -/

section Visits

variable {n level : Nat} {w w' : TimerWheel}

/-- Above `level`, and at `level` outside the bucket visited at `n`, everything
is later. -/
def SweptBut (level n : Nat) (w : TimerWheel) : Prop :=
  ∀ level' slot' p, level ≤ level' → p ∈ w.buckets level' slot' →
    (level' = level ∧ slot' = n / interval level % slots) ∨ Later n w level' p

theorem Sweeping.sweptBut (h : Sweeping n w) (hswept : SweptFrom (level + 1) n w) :
    SweptBut level n w := by
  intro level' slot' p hle hp
  rcases Nat.lt_or_eq_of_le hle with hlt | rfl
  · exact .inr (hswept level' slot' p hlt hp)
  · have hplaced := h.timely.placed level slot' p hp
    by_cases hslot : slot' = n / interval level % slots
    · exact .inl ⟨rfl, hslot⟩
    · refine .inr (lt_of_le_of_ne hplaced.low fun heq => hslot ?_)
      -- a unit that begins at `n` has `n`'s slot
      rw [hplaced.slot_eq]
      have hdiv : max (w.mem p).expiryTime n / interval level = n / interval level := by
        conv_rhs => rw [heq]
        exact (Nat.mul_div_cancel _ (interval_pos level)).symm
      rw [hdiv]

theorem Sweeping.sweptFrom_of_not_dvd (h : Sweeping n w) (hmod : n % interval level ≠ 0)
    (hswept : SweptFrom (level + 1) n w) : SweptFrom level n w := by
  intro level' slot' p hle hp
  rcases Nat.lt_or_eq_of_le hle with hlt | rfl
  · exact hswept level' slot' p hlt hp
  · exact lt_of_le_of_ne (h.timely.placed level slot' p hp).low
      (Lap.floor_ne_of_not_dvd hmod).symm

/-- A visit empties its bucket, given one round more than it has timers. -/
theorem Sweeping.processSlot (hmod : n % interval level = 0) (k : Nat) :
    ∀ {w : TimerWheel}, Sweeping n w → SweptBut level n w →
      (w.buckets level (n / interval level % slots)).length = k →
      ∃ w', (∀ fuel, k < fuel →
          TimerWheel.processSlot level (n / interval level % slots) fuel w = some w') ∧
        Sweeping n w' ∧ SweptFrom level n w' := by
  induction k with
  | zero =>
      intro w h hbut hlen
      have hnil := List.eq_nil_of_length_eq_zero hlen
      refine ⟨w, ?_, h, ?_⟩
      · intro fuel hfuel
        obtain ⟨fuel, rfl⟩ : ∃ f, fuel = f + 1 := ⟨fuel - 1, by omega⟩
        rw [TimerWheel.processSlot, hnil]
      · intro level' slot' p hle hp
        rcases hbut level' slot' p hle hp with ⟨rfl, rfl⟩ | hlater
        · rw [hnil] at hp
          cases hp
        · exact hlater
  | succ k ih =>
      intro w h hbut hlen
      obtain ⟨p, tail, hbucket⟩ := List.exists_cons_of_length_eq_add_one hlen
      rw [hbucket, List.length_cons] at hlen
      obtain ⟨w₁, hw₁, h₁, hlen₁, hmoves⟩ := h.round hmod hbucket
      have hbut₁ : SweptBut level n w₁ := by
        intro level' slot' q hle hq
        rcases hmoves level' slot' q hq with hlater | ⟨hold, hexpiry⟩
        · exact .inr hlater
        · rcases hbut level' slot' q hle hold with hin | hlater
          · exact .inl hin
          · refine .inr ?_
            unfold Later
            rw [hexpiry]
            exact hlater
      obtain ⟨w', hrun, h', hswept⟩ := ih h₁ hbut₁ (by omega)
      refine ⟨w', ?_, h', hswept⟩
      intro fuel hfuel
      obtain ⟨fuel, rfl⟩ : ∃ f, fuel = f + 1 := ⟨fuel - 1, by omega⟩
      rw [TimerWheel.processSlot, hbucket]
      dsimp only
      rw [hw₁]
      exact hrun fuel (by omega)

theorem Sweeping.cascade (level : Nat) :
    ∀ {w : TimerWheel}, Sweeping n w → SweptFrom (level + 1) n w →
      ∃ enough w', (∀ fuel ≥ enough, TimerWheel.cascade fuel level w = some w') ∧
        Sweeping n w' ∧ SweptFrom 1 n w' := by
  induction level with
  | zero => intro w h hswept; exact ⟨0, w, fun _ _ => rfl, h, hswept⟩
  | succ level ih =>
      intro w h hswept
      have hnow := h.now
      by_cases hmod : n % interval (level + 1) = 0
      · obtain ⟨w₁, hrun₁, h₁, hswept₁⟩ :=
          Sweeping.processSlot hmod _ h (h.sweptBut hswept) rfl
        obtain ⟨enough, w', hrun, h', hswept'⟩ := ih h₁ hswept₁
        refine ⟨max enough ((w.buckets (level + 1)
          (n / interval (level + 1) % slots)).length + 1), w', ?_, h', hswept'⟩
        intro fuel hfuel
        rw [TimerWheel.cascade, hnow, if_neg (by simpa using hmod), hrun₁ fuel (by omega)]
        exact hrun fuel (by omega)
      · obtain ⟨enough, w', hrun, h', hswept'⟩ := ih h (h.sweptFrom_of_not_dvd hmod hswept)
        refine ⟨enough, w', ?_, h', hswept'⟩
        intro fuel hfuel
        rw [TimerWheel.cascade, hnow, if_pos hmod]
        exact hrun fuel hfuel

/-- Once every bucket is later than `n`, the next visit is at `n + 1`. -/
theorem Sweeping.next (h : Sweeping n w) (hswept : SweptFrom 0 n w) : Timely (n + 1) w := by
  have hexpiry : ∀ p, w.Holds p → n + 1 ≤ (w.mem p).expiryTime := by
    rintro p ⟨level, slot, hp⟩
    have hlater := hswept level slot p (Nat.zero_le _) hp
    have hle := Lap.floor_le (interval level) (max (w.mem p).expiryTime n)
    unfold Later at hlater
    omega
  refine ⟨?_, ?_, h.timely.done⟩
  · intro level slot p hp
    have hplaced := h.timely.placed level slot p hp
    have hlater := hswept level slot p (Nat.zero_le _) hp
    have hge := hexpiry p ⟨level, slot, hp⟩
    unfold Later at hlater
    have hmax : max (w.mem p).expiryTime (n + 1) = max (w.mem p).expiryTime n := by omega
    rw [hmax]
    have hhigh := hplaced.high
    exact ⟨hplaced.slot_eq, by omega, by omega⟩
  · intro id p hp
    obtain ⟨c, hacc, hlt, -⟩ := h.timely.armed id p hp
    have hge := hexpiry p (h.inv.held id p hp).2
    exact ⟨c, hacc, by omega, by omega⟩

theorem advance_timely (h : Inv w) (ht : Timely (w.currentTime + 1) w) (hspan : InSpan w.log) :
    ∃ enough w', (∀ fuel ≥ enough, advance fuel w = some w') ∧ Inv w' ∧
      Timely (w'.currentTime + 1) w' ∧ InSpan w'.log ∧ w'.currentTime = w.currentTime + 1 := by
  have hpass : Effect Policy.any w { w with currentTime := w.currentTime + 1 } :=
    .pass trivial ⟨rfl, rfl, rfl, rfl, fun _ => rfl⟩ rfl
  have hstart : Sweeping (w.currentTime + 1) { w with currentTime := w.currentTime + 1 } :=
    ⟨h.effect hpass,
      ht.of_same h rfl (fun _ _ => rfl) rfl (Nat.le_succ _) (fun _ => .inl rfl), hspan, rfl⟩
  have htop : SweptFrom (twLevels - 1 + 1) (w.currentTime + 1)
      { w with currentTime := w.currentTime + 1 } := by
    intro level slot p hle hp
    have hlt := (hstart.inv.linked.of_mem hp).2.2.2.1
    exact absurd hle (by omega)
  obtain ⟨enough, w₁, hrun₁, h₁, hswept₁⟩ := Sweeping.cascade (twLevels - 1) hstart htop
  have hmod : (w.currentTime + 1) % interval 0 = 0 := Nat.mod_one _
  obtain ⟨w', hrun, h', hswept⟩ := Sweeping.processSlot hmod _ h₁ (h₁.sweptBut hswept₁) rfl
  refine ⟨max enough ((w₁.buckets 0
    ((w.currentTime + 1) / interval 0 % slots)).length + 1), w', ?_, h'.inv, ?_, h'.span, h'.now⟩
  · intro fuel hfuel
    have hslot : w₁.currentTime % slots = (w.currentTime + 1) / interval 0 % slots := by
      rw [h₁.now]
      change _ = (w.currentTime + 1) / 1 % slots
      rw [Nat.div_one]
    unfold advance
    rw [hrun₁ fuel (by omega)]
    dsimp only
    rw [hslot]
    exact hrun fuel (by omega)
  · rw [h'.now]
    exact h'.next hswept

theorem advanceBy_timely (rounds : Nat) :
    ∀ {w : TimerWheel}, Inv w → Timely (w.currentTime + 1) w → InSpan w.log →
      ∃ enough w', (∀ fuel ≥ enough, advanceBy fuel rounds w = some w') ∧ Inv w' ∧
        Timely (w'.currentTime + 1) w' ∧ InSpan w'.log ∧
          w'.currentTime = w.currentTime + rounds := by
  induction rounds with
  | zero => intro w h ht hspan; exact ⟨0, w, fun _ _ => rfl, h, ht, hspan, rfl⟩
  | succ rounds ih =>
      intro w h ht hspan
      obtain ⟨enough₁, w₁, hrun₁, h₁, ht₁, hspan₁, hcur₁⟩ := advance_timely h ht hspan
      obtain ⟨enough, w', hrun, h', ht', hspan', hcur⟩ := ih h₁ ht₁ hspan₁
      refine ⟨max enough₁ enough, w', ?_, h', ht', hspan', by omega⟩
      intro fuel hfuel
      rw [advanceBy, hrun₁ fuel (by omega)]
      exact hrun fuel (by omega)

end Visits

end Uvent.Timers
