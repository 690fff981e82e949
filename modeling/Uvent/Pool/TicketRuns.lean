import Uvent.Pool.TicketLock

/-!
# Runs of the ticket lock

What holds of the lock in every run in which a `try_lock` compares against a serving number
that is less than a lap of tickets old, and the run in which it is not and two workers are
inside.
-/

namespace Uvent.Pool.TicketLock

variable {W : Nat} {s s' : State} {w : Nat}

/-- A worker compares the serving number with one that is not its own ticket, and one that
sleeps on an old number is about to be notified. -/
structure Sleepers (s : State) : Prop where
  wait : ∀ w m r, s.pc w = .wait m r → r ≠ m
  asleep : ∀ w m r, s.pc w = .asleep m r → r ≠ m ∧ (s.serving = r ∨ ∃ u, s.pc u = .notify)

/-- The serving number that a `try_lock` has read is one that was served. -/
def Reads (s : State) : Prop :=
  ∀ w r, s.pc w = .cas r → r = BitVec.ofNat 32 (s.readAt w) ∧ s.readAt w ≤ s.served

/-- `is_locked` says that a worker is inside. -/
def Marks (s : State) : Prop := s.isLocked = true ↔ ∃ w, s.pc w = .inside

theorem Sleepers.update (h : Sleepers s) {pc : Pc} (hpc : s'.pc = Function.update s.pc w pc)
    (hserving : s'.serving = s.serving) (hnotify : s.pc w ≠ .notify)
    (hwait : ∀ m r, pc = .wait m r → r ≠ m)
    (hasleep : ∀ m r, pc = .asleep m r → r ≠ m ∧ s.serving = r) : Sleepers s' where
  wait := by
    intro v m r hv
    by_cases heq : v = w
    · rw [hpc, heq, Function.update_self] at hv
      exact hwait m r hv
    · rw [hpc, Function.update_of_ne heq] at hv
      exact h.wait v m r hv
  asleep := by
    intro v m r hv
    rw [hserving]
    by_cases heq : v = w
    · rw [hpc, heq, Function.update_self] at hv
      exact ⟨(hasleep m r hv).1, Or.inl (hasleep m r hv).2⟩
    · rw [hpc, Function.update_of_ne heq] at hv
      obtain ⟨hne, hold | ⟨u, hu⟩⟩ := h.asleep v m r hv
      · exact ⟨hne, Or.inl hold⟩
      · have huw : u ≠ w := fun h => hnotify (by rw [← h, hu])
        exact ⟨hne, Or.inr ⟨u, by rw [hpc, Function.update_of_ne huw, hu]⟩⟩

theorem Sleepers.pass (h : Sleepers s) : Sleepers (s.pass w) where
  wait := by
    intro v m r hv
    change Function.update s.pc w .notify v = .wait m r at hv
    by_cases heq : v = w
    · rw [heq, Function.update_self] at hv
      cases hv
    · rw [Function.update_of_ne heq] at hv
      exact h.wait v m r hv
  asleep := by
    intro v m r hv
    change Function.update s.pc w .notify v = .asleep m r at hv
    by_cases heq : v = w
    · rw [heq, Function.update_self] at hv
      cases hv
    · rw [Function.update_of_ne heq] at hv
      exact ⟨(h.asleep v m r hv).1, Or.inr ⟨w, Function.update_self ..⟩⟩

theorem Sleepers.notifyAll (h : Sleepers s) : Sleepers (s.notifyAll w) where
  wait := by
    intro v m r hv
    change Function.update (fun v => (s.pc v).wake) w .out v = .wait m r at hv
    by_cases heq : v = w
    · rw [heq, Function.update_self] at hv
      cases hv
    · rw [Function.update_of_ne heq] at hv
      cases hpc : s.pc v with
      | asleep m' r' =>
          rw [hpc] at hv
          cases hv
          exact (h.asleep v m r hpc).1
      | wait m' r' =>
          rw [hpc] at hv
          cases hv
          exact h.wait v m r hpc
      | _ =>
          rw [hpc] at hv
          cases hv
  asleep := by
    intro v m r hv
    change Function.update (fun v => (s.pc v).wake) w .out v = .asleep m r at hv
    by_cases heq : v = w
    · rw [heq, Function.update_self] at hv
      cases hv
    · rw [Function.update_of_ne heq] at hv
      cases hpc : s.pc v with
      | _ =>
          rw [hpc] at hv
          cases hv

theorem Reads.update (h : Reads s) {pc : Pc} (hpc : s'.pc = Function.update s.pc w pc)
    (hread : ∀ v, v ≠ w → s'.readAt v = s.readAt v) (hserved : s.served ≤ s'.served)
    (hcas : ∀ r, pc = .cas r → r = BitVec.ofNat 32 (s'.readAt w) ∧ s'.readAt w ≤ s'.served) :
    Reads s' := by
  intro v r hv
  by_cases heq : v = w
  · rw [hpc, heq, Function.update_self] at hv
    rw [heq]
    exact hcas r hv
  · rw [hpc, Function.update_of_ne heq] at hv
    rw [hread v heq]
    obtain ⟨hr, hle⟩ := h v r hv
    exact ⟨hr, hle.trans hserved⟩

theorem Reads.notifyAll (h : Reads s) : Reads (s.notifyAll w) := by
  intro v r hv
  change Function.update (fun v => (s.pc v).wake) w .out v = .cas r at hv
  by_cases heq : v = w
  · rw [heq, Function.update_self] at hv
    cases hv
  · rw [Function.update_of_ne heq] at hv
    cases hpc : s.pc v with
    | cas r' =>
        rw [hpc] at hv
        cases hv
        exact h v r hpc
    | _ =>
        rw [hpc] at hv
        cases hv

theorem Marks.update (h : Marks s) {pc : Pc} (hpc : s'.pc = Function.update s.pc w pc)
    (hlocked : s'.isLocked = s.isLocked) (hold : s.pc w ≠ .inside) (hnew : pc ≠ .inside) :
    Marks s' := by
  unfold Marks
  rw [hlocked]
  refine h.trans (exists_congr fun v => ?_)
  by_cases heq : v = w
  · rw [hpc, heq, Function.update_self]
    exact iff_of_false hold hnew
  · rw [hpc, Function.update_of_ne heq]

theorem Marks.notifyAll (h : Marks s) (hw : s.pc w = .notify) : Marks (s.notifyAll w) := by
  refine h.trans (exists_congr fun v => ?_)
  change s.pc v = .inside ↔ Function.update (fun v => (s.pc v).wake) w .out v = .inside
  by_cases heq : v = w
  · rw [heq, Function.update_self, hw]
    exact iff_of_false nofun nofun
  · rw [Function.update_of_ne heq]
    cases s.pc v <;> simp [Pc.wake]

theorem holds_update {pc : Pc} (h : pc.holds = (s.pc w).holds) (v : Nat) :
    (Function.update s.pc w pc v).holds = (s.pc v).holds := by
  by_cases heq : v = w
  · rw [heq, Function.update_self, h]
  · rw [Function.update_of_ne heq]

theorem mine_update {pc : Pc} (h : pc.mine = (s.pc w).mine) (v : Nat) :
    (Function.update s.pc w pc v).mine = (s.pc v).mine := by
  by_cases heq : v = w
  · rw [heq, Function.update_self, h]
  · rw [Function.update_of_ne heq]

theorem engaged_update {pc : Pc} (hholds : pc.holds = (s.pc w).holds)
    (hmine : pc.mine = (s.pc w).mine) (v : Nat) :
    (Function.update s.pc w pc v).engaged = (s.pc v).engaged := by
  rw [Pc.engaged, holds_update hholds, mine_update hmine, Pc.engaged]

structure Inv (W : Nat) (s : State) : Prop where
  places : Places W s
  turns : Turns s
  sleepers : Sleepers s
  reads : Reads s
  marks : Marks s

theorem inv_start : Inv W State.start where
  places := ⟨rfl, rfl, Nat.le_refl _, fun k _ hk => absurd hk (Nat.not_lt_zero k), nofun, nofun⟩
  turns := ⟨nofun, fun _ => rfl, nofun⟩
  sleepers := ⟨nofun, nofun⟩
  reads := nofun
  marks := ⟨nofun, nofun⟩

namespace Inv

/-- `compare_exchange` finds the number it has read only if every ticket was served. -/
theorem served_of_exchange (h : Inv W s) {r : Ticket} (hpc : s.pc w = .cas r) (hnear : Near s w)
    (hnext : s.next = r) : s.served = s.line.length := by
  obtain ⟨hr, hread⟩ := h.reads w r hpc
  rw [h.places.next, hr] at hnext
  have hle := h.places.served_le
  have heq := ofNat_inj hnext.symm (by omega) hnear
  omega

theorem free_of_served (h : Inv W s) (heq : s.served = s.line.length) :
    s.Free ∧ s.NobodyWaits := by
  refine ⟨fun v => ?_, fun v => ?_⟩
  · have hidle := h.places.idle_of_served heq v
    rw [Pc.engaged, Bool.or_eq_false_iff] at hidle
    exact hidle.1
  · have hidle := h.places.idle_of_served heq v
    rw [Pc.engaged, Bool.or_eq_false_iff] at hidle
    exact Option.not_isSome_iff_eq_none.mp (by simp [hidle.2])

/-- A step that changes nothing but where worker `w` is, and not between waiting, having the
poller and neither. -/
theorem move (h : Inv W s) {pc : Pc} (hholds : pc.holds = (s.pc w).holds)
    (hmine : pc.mine = (s.pc w).mine) (hnotify : s.pc w ≠ .notify) (hold : s.pc w ≠ .inside)
    (hwait : ∀ m r, pc = .wait m r → r ≠ m)
    (hasleep : ∀ m r, pc = .asleep m r → r ≠ m ∧ s.serving = r)
    (hcas : ∀ r, pc ≠ .cas r) (hnew : pc ≠ .inside) : Inv W (s.move w pc) where
  places := h.places.frame (engaged_update hholds hmine) fun v _ hv =>
    (mine_update hmine v).symm.trans hv
  turns := h.turns.frame (holds_update hholds)
  sleepers := h.sleepers.update rfl rfl hnotify hwait hasleep
  reads := h.reads.update rfl (fun _ _ => rfl) (Nat.le_refl _) fun r hr => absurd hr (hcas r)
  marks := h.marks.update rfl rfl hold hnew

theorem read (h : Inv W s) (hpc : s.pc w = .out) : Inv W (s.read w) := by
  have hholds : (Pc.cas s.serving).holds = (s.pc w).holds := by rw [hpc]; rfl
  have hmine : (Pc.cas s.serving).mine = (s.pc w).mine := by rw [hpc]; rfl
  exact {
    places := h.places.frame (engaged_update hholds hmine) fun v _ hv =>
      (mine_update hmine v).symm.trans hv
    turns := h.turns.frame (holds_update hholds)
    sleepers := h.sleepers.update rfl rfl (by rw [hpc]; nofun) nofun nofun
    reads := by
      refine h.reads.update rfl (fun v hv => Function.update_of_ne hv ..) (Nat.le_refl _) ?_
      intro r hr
      have hread : (s.read w).readAt w = s.served := Function.update_self ..
      rw [hread, ← Pc.cas.inj hr]
      exact ⟨h.places.serving, Nat.le_refl _⟩
    marks := h.marks.update rfl rfl (by rw [hpc]; nofun) nofun }

theorem exchange (h : Inv W s) (hw : w < W) {r : Ticket} (hpc : s.pc w = .cas r)
    (hserved : s.served = s.line.length) : Inv W ((s.draw w .mark).enter w) := by
  have hidle : (s.pc w).engaged = false := by rw [hpc]; rfl
  have hfree := (h.free_of_served hserved).1
  have hplaces : Places W (s.draw w .mark) := h.places.draw hw hidle rfl nofun
  exact {
    places := hplaces.frame (fun _ => rfl) fun _ _ hv => hv
    turns := by
      refine Turns.enter rfl hfree ?_ ?_ ?_
      · change s.entered ++ [w] = (s.line ++ [w]).take s.served ++ [w]
        rw [h.turns.entered_of_free hfree, List.take_append_of_le_length h.places.served_le]
      · change Function.update s.ticket w s.line.length w = s.served
        rw [Function.update_self, hserved]
      · change (s.line ++ [w])[s.served]? = some w
        rw [hserved, List.getElem?_concat_length]
    sleepers := h.sleepers.update rfl rfl (by rw [hpc]; nofun) nofun nofun
    reads := h.reads.update rfl (fun _ _ => rfl) (Nat.le_refl _) nofun
    marks := h.marks.update rfl rfl (by rw [hpc]; nofun) nofun }

theorem lock_poll (h : Inv W s) (hw : w < W) (hpc : s.pc w = .out) :
    Inv W (s.draw w (.load s.next)) := by
  have hidle : (s.pc w).engaged = false := by rw [hpc]; rfl
  exact {
    places := h.places.draw hw hidle rfl fun m hm => (Option.some.inj hm).symm
    turns := h.turns.draw h.places hidle rfl
    sleepers := h.sleepers.update rfl rfl (by rw [hpc]; nofun) nofun nofun
    reads := h.reads.update rfl (fun _ _ => rfl) (Nat.le_refl _) nofun
    marks := h.marks.update rfl rfl (by rw [hpc]; nofun) nofun }

theorem turn (h : Inv W s) (hW : W < 2 ^ 32) {m : Ticket} (hpc : s.pc w = .load m)
    (hserving : s.serving = m) : Inv W ((s.move w .mark).enter w) := by
  have hmine : (s.pc w).mine = some s.serving := by rw [hpc, hserving]; rfl
  have hticket := h.places.ticket_of_serving hW hmine
  have hfree := h.turns.free_of_waits h.places hmine (by rw [hpc]; rfl) hticket
  have hplace := (h.places.place w (Pc.engaged_of_mine hmine)).2
  rw [hticket] at hplace
  exact {
    places := by
      refine h.places.frame (fun v => ?_) (fun v m' hv => ?_)
      · change (Function.update s.pc w .mark v).engaged = (s.pc v).engaged
        by_cases heq : v = w
        · rw [heq, Function.update_self, hpc]
          rfl
        · rw [Function.update_of_ne heq]
      · change (Function.update s.pc w .mark v).mine = some m' at hv
        by_cases heq : v = w
        · rw [heq, Function.update_self] at hv
          cases hv
        · rwa [Function.update_of_ne heq] at hv
    turns := by
      refine Turns.enter rfl hfree ?_ hticket hplace
      change s.entered ++ [w] = s.line.take s.served ++ [w]
      rw [h.turns.entered_of_free hfree]
    sleepers := h.sleepers.update rfl rfl (by rw [hpc]; nofun) nofun nofun
    reads := h.reads.update rfl (fun _ _ => rfl) (Nat.le_refl _) nofun
    marks := h.marks.update rfl rfl (by rw [hpc]; nofun) nofun }

theorem lock (h : Inv W s) (hpc : s.pc w = .mark) : Inv W (s.lock w) := by
  have hholds : Pc.inside.holds = (s.pc w).holds := by rw [hpc]; rfl
  have hmine : Pc.inside.mine = (s.pc w).mine := by rw [hpc]; rfl
  exact {
    places := h.places.frame (engaged_update hholds hmine) fun v _ hv =>
      (mine_update hmine v).symm.trans hv
    turns := h.turns.frame (holds_update hholds)
    sleepers := h.sleepers.update rfl rfl (by rw [hpc]; nofun) nofun nofun
    reads := h.reads.update rfl (fun _ _ => rfl) (Nat.le_refl _) nofun
    marks := iff_of_true rfl ⟨w, Function.update_self ..⟩ }

theorem unlock (h : Inv W s) (hpc : s.pc w = .inside) : Inv W (s.unlock w) := by
  have hholds : Pc.leave.holds = (s.pc w).holds := by rw [hpc]; rfl
  have hmine : Pc.leave.mine = (s.pc w).mine := by rw [hpc]; rfl
  have hout : ∀ v, Function.update s.pc w .leave v ≠ .inside := by
    intro v hv
    by_cases heq : v = w
    · rw [heq, Function.update_self] at hv
      cases hv
    · rw [Function.update_of_ne heq] at hv
      exact heq (h.turns.alone h.places (by rw [hv]; rfl) (by rw [hpc]; rfl))
  exact {
    places := h.places.frame (engaged_update hholds hmine) fun v _ hv =>
      (mine_update hmine v).symm.trans hv
    turns := h.turns.frame (holds_update hholds)
    sleepers := h.sleepers.update rfl rfl (by rw [hpc]; nofun) nofun nofun
    reads := h.reads.update rfl (fun _ _ => rfl) (Nat.le_refl _) nofun
    marks := iff_of_false nofun fun ⟨v, hv⟩ => hout v hv }

theorem pass (h : Inv W s) (hpc : s.pc w = .leave) : Inv W (s.pass w) := by
  have hholds : (s.pc w).holds = true := by rw [hpc]; rfl
  exact {
    places := h.places.pass (Pc.engaged_of_holds hholds) (h.turns.holds w hholds)
    turns := h.turns.pass h.places hholds
    sleepers := h.sleepers.pass
    reads := h.reads.update rfl (fun _ _ => rfl) (Nat.le_succ _) nofun
    marks := h.marks.update rfl rfl (by rw [hpc]; nofun) nofun }

theorem notifyAll (h : Inv W s) (hpc : s.pc w = .notify) : Inv W (s.notifyAll w) := by
  have hkept : ∀ v, (Function.update (fun v => (s.pc v).wake) w .out v).holds = (s.pc v).holds ∧
      (Function.update (fun v => (s.pc v).wake) w .out v).mine = (s.pc v).mine := by
    intro v
    by_cases heq : v = w
    · rw [heq, Function.update_self, hpc]
      exact ⟨rfl, rfl⟩
    · rw [Function.update_of_ne heq]
      exact ⟨Pc.holds_wake _, Pc.mine_wake _⟩
  exact {
    places := by
      refine h.places.frame (fun v => ?_) fun v m hv => (hkept v).2.symm.trans hv
      rw [Pc.engaged, (hkept v).1, (hkept v).2, Pc.engaged]
    turns := h.turns.frame fun v => (hkept v).1
    sleepers := h.sleepers.notifyAll
    reads := h.reads.notifyAll
    marks := h.marks.notifyAll hpc }

theorem step (h : Inv W s) (hW : W < 2 ^ 32) (hw : w < W) (hstep : Step w s s')
    (hnear : ∀ r, s.pc w = .cas r → Near s w) : Inv W s' := by
  cases hstep with
  | try_lock hpc => exact h.read hpc
  | exchange hpc hnext =>
      exact h.exchange hw hpc (h.served_of_exchange hpc (hnear _ hpc) hnext)
  | fail hpc hne =>
      exact h.move (by rw [hpc]; rfl) (by rw [hpc]; rfl) (by rw [hpc]; nofun) (by rw [hpc]; nofun)
        nofun nofun nofun nofun
  | lock_poll hpc => exact h.lock_poll hw hpc
  | turn hpc hserving => exact h.turn hW hpc hserving
  | load hpc hne =>
      refine h.move (by rw [hpc]; rfl) (by rw [hpc]; rfl) (by rw [hpc]; nofun) (by rw [hpc]; nofun)
        ?_ nofun nofun nofun
      intro m r heq
      cases heq
      exact hne
  | @sleep m r hpc hserving =>
      refine h.move (by rw [hpc]; rfl) (by rw [hpc]; rfl) (by rw [hpc]; nofun) (by rw [hpc]; nofun)
        nofun ?_ nofun nofun
      intro m' r' heq
      cases heq
      exact ⟨h.sleepers.wait w m r hpc, hserving⟩
  | pass_wait hpc hne =>
      exact h.move (by rw [hpc]; rfl) (by rw [hpc]; rfl) (by rw [hpc]; nofun) (by rw [hpc]; nofun)
        nofun nofun nofun nofun
  | @spurious m r hpc =>
      refine h.move (by rw [hpc]; rfl) (by rw [hpc]; rfl) (by rw [hpc]; nofun) (by rw [hpc]; nofun)
        ?_ nofun nofun nofun
      intro m' r' heq
      cases heq
      exact (h.sleepers.asleep w m r hpc).1
  | lock hpc => exact h.lock hpc
  | unlock hpc => exact h.unlock hpc
  | fetch_add hpc => exact h.pass hpc
  | notify_all hpc => exact h.notifyAll hpc

end Inv

theorem inv_of_runs (hW : W < 2 ^ 32) (h : Runs W Near s) : Inv W s := by
  induction h with
  | start => exact inv_start
  | step w _ hw hstep hok ih => exact ih.step hW hw hstep hok

/-! ## The worker with the next ticket -/

theorem canEnter_of_load {m : Ticket} (hpc : s.pc w = .load m) (hserving : s.serving = m) :
    CanEnter w s :=
  ⟨_, .single (Or.inl (.turn hpc hserving)), Function.update_self ..⟩

theorem CanEnter.head (hstep : Assisted w s s') (h : CanEnter w s') : CanEnter w s := by
  obtain ⟨s₁, hrun, hmark⟩ := h
  exact ⟨s₁, .head hstep hrun, hmark⟩

theorem canEnter_of_wait {m r : Ticket} (hpc : s.pc w = .wait m r) (hserving : s.serving = m)
    (hne : r ≠ m) : CanEnter w s := by
  have hload : CanEnter w (s.move w (.load m)) :=
    canEnter_of_load (Function.update_self ..) hserving
  exact hload.head (Or.inl (.pass_wait hpc fun h => hne (h.symm.trans hserving)))

theorem Inv.canEnter (h : Inv W s) (hmine : (s.pc w).mine = some s.serving) : CanEnter w s := by
  cases hpc : s.pc w with
  | load m =>
      rw [hpc] at hmine
      exact canEnter_of_load hpc (Option.some.inj hmine).symm
  | wait m r =>
      rw [hpc] at hmine
      exact canEnter_of_wait hpc (Option.some.inj hmine).symm (h.sleepers.wait w m r hpc)
  | asleep m r =>
      rw [hpc] at hmine
      have hserving := (Option.some.inj hmine).symm
      obtain ⟨hne, hold | ⟨u, hu⟩⟩ := h.sleepers.asleep w m r hpc
      · exact absurd (hold.symm.trans hserving) hne
      · have hwu : w ≠ u := by
          intro heq
          rw [heq, hu] at hpc
          cases hpc
        have hwoken : (s.notifyAll u).pc w = .wait m r := by
          change Function.update (fun v => (s.pc v).wake) u .out w = .wait m r
          rw [Function.update_of_ne hwu, hpc]
          rfl
        exact (canEnter_of_wait hwoken hserving hne).head (Or.inr ⟨u, hu, .notify_all hu⟩)
  | _ =>
      rw [hpc] at hmine
      cases hmine

/-- Where the poller is free and tickets are out, the next one is with a worker that waits. -/
theorem Inv.next_waits (h : Inv W s) (hfree : s.Free) (hlt : s.served < s.line.length) :
    ∃ w, s.line[s.served]? = some w ∧ (s.pc w).mine = some s.serving := by
  obtain ⟨w, -, heng, hticket⟩ := h.places.holder s.served (Nat.le_refl _) hlt
  obtain ⟨m, hm⟩ := Pc.mine_of_engaged heng (hfree w)
  have hplace := (h.places.place w heng).2
  rw [hticket] at hplace
  refine ⟨w, hplace, ?_⟩
  rw [hm, h.places.serving, h.places.waits w m hm, hticket]

theorem Inv.entered_in_order (h : Inv W s) : s.entered <+: s.line := by
  by_cases hfree : s.Free
  · rw [h.turns.entered_of_free hfree]
    exact List.take_prefix _ _
  · obtain ⟨w, hw⟩ := not_forall.mp hfree
    rw [h.turns.entered_of_holds w (Bool.eq_true_of_not_eq_false hw)]
    exact List.take_prefix _ _

/-- The lock keeps its promises as long as no `try_lock` compares against a number that is a
whole lap of tickets old. -/
theorem lock_right_of_runs (hW : W < 2 ^ 32) (hruns : Runs W Near s) : Right Near s := by
  have h := inv_of_runs hW hruns
  exact {
    alone := fun v w hv hw => h.turns.alone h.places hv hw
    tries := by
      intro w r hpc hnear hnext
      exact h.free_of_served (h.served_of_exchange hpc hnear hnext)
    order := h.entered_in_order
    serves := by
      intro hfree
      rcases Nat.eq_or_lt_of_le h.places.served_le with heq | hlt
      · exact Or.inl (h.free_of_served heq).2
      · obtain ⟨w, hplace, hmine⟩ := h.next_waits hfree hlt
        exact Or.inr ⟨w, hplace, hmine, h.canEnter hmine⟩ }

/-! ## A lap of tickets between two accesses -/

/-- Worker 2 has read the serving number 0 while ticket 0 was out; since then `n - 1` tickets
were drawn and all are served. -/
structure Cycled (n : Nat) (s : State) : Prop where
  runs : Runs 3 Recent s
  next : s.next = BitVec.ofNat 32 n
  serving : s.serving = BitVec.ofNat 32 n
  drawn : s.line.length = n
  drawnAt : s.drawnAt 2 = 1
  second : s.pc 1 = .out
  third : s.pc 2 = .cas 0

theorem cycled_one : ∃ s, Cycled 1 s := by
  have h₀ : Runs 3 Recent State.start := .start
  have hfirst : ∀ r, (State.start.read 0).pc 0 = .cas r → Recent (State.start.read 0) 0 := by
    intro _ _
    unfold Recent
    decide
  have h₁ := h₀.step 0 (by decide) (.try_lock rfl) nofun
  have h₂ := h₁.step 0 (by decide) (.exchange (r := 0) rfl rfl) hfirst
  have h₃ := h₂.step 0 (by decide) (.lock rfl) nofun
  have h₄ := h₃.step 2 (by decide) (.try_lock rfl) nofun
  have h₅ := h₄.step 0 (by decide) (.unlock rfl) nofun
  have h₆ := h₅.step 0 (by decide) (.fetch_add rfl) nofun
  have h₇ := h₆.step 0 (by decide) (.notify_all rfl) nofun
  exact ⟨_, h₇, rfl, rfl, rfl, rfl, rfl, rfl⟩

theorem Cycled.enter {n : Nat} (h : Cycled n s) : ∃ s', Runs 3 Recent s' ∧
    s'.next = BitVec.ofNat 32 (n + 1) ∧ s'.serving = BitVec.ofNat 32 n ∧
    s'.line.length = n + 1 ∧ s'.drawnAt 2 = 1 ∧ s'.pc 1 = .inside ∧ s'.pc 2 = .cas 0 := by
  have h₁ := h.runs.step 1 (by decide) (.lock_poll h.second) (by rw [h.second]; nofun)
  have hload : (s.draw 1 (.load s.next)).pc 1 = .load s.next := rfl
  have hserved : (s.draw 1 (.load s.next)).serving = s.next := h.serving.trans h.next.symm
  have h₂ := h₁.step 1 (by decide) (.turn hload hserved) (by rw [hload]; nofun)
  have hmark : (((s.draw 1 (.load s.next)).move 1 .mark).enter 1).pc 1 = .mark := rfl
  have h₃ := h₂.step 1 (by decide) (.lock hmark) (by rw [hmark]; nofun)
  refine ⟨_, h₃, ?_, h.serving, ?_, h.drawnAt, rfl, ?_⟩
  · change s.next + 1 = BitVec.ofNat 32 (n + 1)
    rw [h.next, ofNat_succ]
  · change (s.line ++ [1]).length = n + 1
    rw [List.length_append, h.drawn]
    rfl
  · exact h.third

theorem Cycled.next_cycle {n : Nat} (h : Cycled n s) : ∃ s', Cycled (n + 1) s' := by
  obtain ⟨t, hrun, hnext, hserving, hdrawn, hat, hone, htwo⟩ := h.enter
  have h₁ := hrun.step 1 (by decide) (.unlock hone) (by rw [hone]; nofun)
  have hleave : (t.unlock 1).pc 1 = .leave := rfl
  have h₂ := h₁.step 1 (by decide) (.fetch_add hleave) (by rw [hleave]; nofun)
  have hnotify : ((t.unlock 1).pass 1).pc 1 = .notify := rfl
  have h₃ := h₂.step 1 (by decide) (.notify_all hnotify) (by rw [hnotify]; nofun)
  refine ⟨_, h₃, hnext, ?_, hdrawn, hat, rfl, ?_⟩
  · change t.serving + 1 = BitVec.ofNat 32 (n + 1)
    rw [hserving, ofNat_succ]
  · change (t.pc 2).wake = .cas 0
    rw [htwo]
    rfl

theorem exists_cycled (n : Nat) : ∃ s, Cycled (n + 1) s := by
  induction n with
  | zero => exact cycled_one
  | succ n ih =>
      obtain ⟨s, hs⟩ := ih
      exact hs.next_cycle

/-- With fewer than 2^32 tickets drawn between the accesses, but a ticket out at the first:
the serving number that worker 2 has read comes up again while worker 1 is inside. -/
theorem two_inside : ¬∀ W < 2 ^ 32, ∀ s, Runs W Recent s → Right Recent s := by
  intro hright
  obtain ⟨s, hs⟩ := exists_cycled (2 ^ 32 - 2)
  obtain ⟨t, hrun, hnext, -, hdrawn, hat, hone, htwo⟩ := hs.enter
  have hrecent : Recent t 2 := by
    unfold Recent
    rw [hdrawn, hat]
    decide
  have hzero : t.next = 0 := hnext
  have hboth := hrun.step 2 (by decide) (.exchange htwo hzero) (fun _ _ => hrecent)
  have hother : (((t.draw 2 .mark).enter 2).pc 1).holds = true := by
    change (t.pc 1).holds = true
    rw [hone]
    rfl
  exact absurd ((hright 3 (by decide) _ hboth).alone 1 2 hother rfl) (by decide)

/-- One worker is inside, another draws a ticket and sleeps; the first one comes out. -/
theorem sleeper_served : ∃ s, Runs 2 Near s ∧ s.Free ∧ s.pc 1 = .asleep 1 0 ∧ Right Near s := by
  have h₀ : Runs 2 Near State.start := .start
  have hfirst : ∀ r, (State.start.read 0).pc 0 = .cas r → Near (State.start.read 0) 0 := by
    intro _ _
    unfold Near
    decide
  have h₁ := h₀.step 0 (by decide) (.try_lock rfl) nofun
  have h₂ := h₁.step 0 (by decide) (.exchange (r := 0) rfl rfl) hfirst
  have h₃ := h₂.step 0 (by decide) (.lock rfl) nofun
  have h₄ := h₃.step 1 (by decide) (.lock_poll rfl) nofun
  have h₅ := h₄.step 1 (by decide) (.load (m := 1) rfl (by decide)) nofun
  have h₆ := h₅.step 1 (by decide) (.sleep (m := 1) (r := 0) rfl rfl) nofun
  have h₇ := h₆.step 0 (by decide) (.unlock rfl) nofun
  have h₈ := h₇.step 0 (by decide) (.fetch_add rfl) nofun
  refine ⟨_, h₈, fun v => ?_, rfl, lock_right_of_runs (by decide) h₈⟩
  match v with
  | 0 => rfl
  | 1 => rfl
  | v + 2 => rfl

end Uvent.Pool.TicketLock
