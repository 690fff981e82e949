import Uvent.Sync.SuspensionRuns

/-!
# What a step inside a suspension changes

A step that begins no suspension, takes no answer from an operation and wakes nobody changes
one coroutine.  It may take nodes of this coroutine out of the lists or push one, and it shows
the coroutine nothing that it has not seen before.
-/

namespace Uvent.Sync.Suspension

variable {Λ : Type}

/-- The operations that a coroutine has looked at and found nothing for; `now` is whether this
is so for the one it is looking at. -/
def Phase.sees (now : Bool) : Phase Λ → Nat → Prop
  | .look _ k, j => j < k ∨ now = true ∧ j = k
  | .attach _ k, j | .startTimer _ k, j => j < k
  | .arm _, _ | .withdraw _, _ | .suspended _, _ => True
  | _, _ => False

def Phase.Fits : Phase Λ → Wait Λ → Prop
  | .running, _ => True
  | .check w', w | .attach w' _, w | .startTimer w' _, w | .look w' _, w | .arm w', w
  | .withdraw w', w | .suspended w', w => w' = w
  | .undo l, w | .resumed l, w => w = .op l
  | .detach ops .., w | .readWinner ops, w => w = .select ops

structure Coro.Advances (c c' : Coro Λ) : Prop where
  busy : c.phase ≠ .running
  look : ∀ w k, c.phase ≠ .look w k
  fits : ∀ w, c.phase.Fits w → c'.phase.Fits w
  sees : c'.winner = .none → ∀ j, c.phase.place j ≠ none → c'.phase.sees false j →
    c.phase.sees false j
  answer : c'.phase = .running → c'.answer = false → ∀ k, c'.winner ≠ .index k

/-- A timer wins for the `SleepOp` it is of. -/
structure Coro.Shifts (c c' : Coro Λ) : Prop where
  turn : c'.turn = c.turn
  winner : c'.winner = c.winner ∨
    c.winner = .none ∧ ∀ k, c'.winner = .index k → c.phase.place k = some .sleep
  moves : c'.phase = c.phase ∧ c'.answer = c.answer ∨ c.Advances c'

/-- Coroutine `t` shifts to `c'`; the node it pushes is for the operation that it looks at
next. -/
structure State.Shifts (s s' : State Λ) (t : Nat) (c' : Coro Λ) : Prop where
  coros : s'.coros = Function.update s.coros t c'
  coro : (s.coros t).Shifts c'
  lists : ∀ l, ∃ kept joined, s'.lists l = kept ++ joined ∧ kept.Sublist (s.lists l) ∧
    ∀ n ∈ joined, n.coro = t ∧ (s.coros t).Advances c' ∧ ∃ w, c'.phase = .look w n.index

section States

variable {s s' : State Λ} {t : Nat} {c' : Coro Λ}

theorem Coro.Shifts.stays {c c' : Coro Λ} (hturn : c'.turn = c.turn) (hphase : c'.phase = c.phase)
    (hanswer : c'.answer = c.answer) (hwinner : c'.winner = c.winner) : c.Shifts c' :=
  ⟨hturn, .inl hwinner, .inl ⟨hphase, hanswer⟩⟩

/-- The coroutine goes on to a phase in which it has seen nothing. -/
theorem Coro.Shifts.leaves {c c' : Coro Λ} {p p' : Phase Λ} (hphase : c.phase = p)
    (hphase' : c'.phase = p') (hturn : c'.turn = c.turn) (hwinner : c'.winner = c.winner)
    (hbusy : p ≠ .running) (hlook : ∀ w k, p ≠ .look w k) (hbusy' : p' ≠ .running)
    (hfits : ∀ w, p.Fits w → p'.Fits w) (hsees : ∀ j, ¬p'.sees false j) : c.Shifts c' := by
  subst hphase hphase'
  refine ⟨hturn, .inl hwinner, .inr ⟨hbusy, hlook, hfits, ?_, fun hp => absurd hp hbusy'⟩⟩
  exact fun _ j _ h => absurd h (hsees j)

theorem State.Shifts.set (h : (s.coros t).Shifts c') : s.Shifts (s.set t c') t c' where
  coros := rfl
  coro := h
  lists l := ⟨s.lists l, [], (List.append_nil _).symm, List.Sublist.refl _, nofun⟩

theorem State.Shifts.refl (s : State Λ) (t : Nat) : s.Shifts s t (s.coros t) := by
  have hset : s.Shifts (s.set t (s.coros t)) t (s.coros t) := .set (.stays rfl rfl rfl rfl)
  unfold State.set at hset
  rw [Function.update_eq_self] at hset
  exact hset

variable [DecidableEq Λ]

theorem State.Shifts.push {w : Wait Λ} {k : Nat} {l : Λ} (hturn : c'.turn = (s.coros t).turn)
    (hwinner : c'.winner = (s.coros t).winner) (h : (s.coros t).Advances c')
    (hphase : c'.phase = .look w k) : s.Shifts ((s.push t k l).set t c') t c' where
  coros := rfl
  coro := ⟨hturn, .inl hwinner, .inr h⟩
  lists l' := by
    by_cases hl : l' = l
    · subst hl
      refine ⟨s.lists l', [s.node t k], Function.update_self .., List.Sublist.refl _, ?_⟩
      intro n hn
      rw [List.mem_singleton.mp hn]
      exact ⟨rfl, h, w, hphase⟩
    · refine ⟨s.lists l', [], ?_, List.Sublist.refl _, nofun⟩
      exact (Function.update_of_ne hl ..).trans (List.append_nil _).symm

theorem State.Shifts.remove {k : Nat} {l : Λ} (h : (s.coros t).Shifts c') :
    s.Shifts ((s.remove t k l).2.set t c') t c' where
  coros := rfl
  coro := h
  lists l' := by
    refine ⟨(s.remove t k l).2.lists l', [], (List.append_nil _).symm, ?_, nofun⟩
    change (Function.update s.lists l ((s.lists l).erase (s.node t k)) l').Sublist _
    by_cases hl : l' = l
    · subst hl
      rw [Function.update_self]
      exact List.erase_sublist
    · rw [Function.update_of_ne hl]

theorem Account.of_store {w : Winner} {who : Option Nat} {n : Nat} (h : Account w .store who n) :
    w = .none := by
  cases h
  rfl

/-! ### The steps -/

theorem Inv.shifts_attach {w : Wait Λ} {k : Nat} (hphase : (s.coros t).phase = .attach w k) :
    ∃ c', s.Shifts (s.attach t w k) t c' := by
  have hfits : ∀ w', (s.coros t).phase.Fits w' → w = w' := by
    rw [hphase]
    exact fun _ hw => hw
  have hbusy : (s.coros t).phase ≠ .running := by rw [hphase]; nofun
  have hlook : ∀ w k, (s.coros t).phase ≠ .look w k := by rw [hphase]; nofun
  have hsees : ∀ j, (s.coros t).phase.sees false j ↔ j < k := by
    rw [hphase]
    exact fun _ => Iff.rfl
  cases hplace : w.places[k]? with
  | none =>
    rw [State.attach_none hplace]
    refine ⟨_, .set ⟨rfl, .inl rfl, .inr ⟨hbusy, hlook, hfits, ?_, nofun⟩⟩⟩
    intro _ j hj _
    rw [hsees]
    by_contra hge
    rw [hphase] at hj
    exact hj (if_neg hge)
  | some place =>
    cases place with
    | listed l =>
      rw [State.attach_listed hplace]
      refine ⟨_, .push rfl rfl ⟨hbusy, hlook, hfits, ?_, nofun⟩ rfl⟩
      intro _ j _ hj
      exact (hsees j).mpr (hj.resolve_right nofun)
    | sleep =>
      rw [State.attach_sleep hplace]
      refine ⟨_, .set ⟨rfl, .inl rfl, .inr ⟨hbusy, hlook, hfits, ?_, nofun⟩⟩⟩
      exact fun _ j _ hj => (hsees j).mpr hj

omit [DecidableEq Λ] in
theorem shifts_startTimer {w : Wait Λ} {k : Nat} (hphase : (s.coros t).phase = .startTimer w k) :
    ∃ c', s.Shifts (s.startTimer t w k) t c' := by
  refine ⟨_, .set ⟨rfl, .inl rfl, .inr ?_⟩⟩
  constructor
  · rw [hphase]
    nofun
  · rw [hphase]
    nofun
  · rw [hphase]
    exact fun _ hw => hw
  · rw [hphase]
    exact fun _ j _ hj => hj.resolve_right nofun
  · exact nofun

omit [DecidableEq Λ] in
/-- A node that was attached and is in its list no more was popped. -/
theorem Inv.won_of_unlinked (h : Inv s) {l : Λ} (hphase : (s.coros t).phase = .undo l)
    (hnot : ¬s.Link t 0 l) : (s.coros t).winner ≠ .none := by
  intro hwinner
  obtain ⟨hopen, -, hpc, -⟩ := (h.coros t).at_kind (show (s.coros t).phase.kind = .opening by
    rw [hphase]; rfl)
  have hattached : (s.coros t).phase.attached = true := by rw [hphase]; rfl
  have hplace : (s.coros t).phase.place 0 = some (.listed l) := by rw [hphase]; rfl
  exact hnot (hopen.linked hattached hwinner hpc 0 l hplace)

theorem Inv.shifts_undo (h : Inv s) {l : Λ} (hphase : (s.coros t).phase = .undo l) :
    ∃ c', s.Shifts (s.undo t l) t c' := by
  have hbusy : (s.coros t).phase ≠ .running := by rw [hphase]; nofun
  have hlook : ∀ w k, (s.coros t).phase ≠ .look w k := by rw [hphase]; nofun
  have hfits : ∀ w, (s.coros t).phase.Fits w → w = .op l := by
    rw [hphase]
    exact fun _ hw => hw
  rw [State.undo_eq]
  by_cases hlink : s.Link t 0 l
  · rw [if_pos ((s.remove_fst t 0 l).mpr hlink)]
    refine ⟨_, .remove ⟨rfl, .inl rfl, .inr ⟨hbusy, hlook, hfits, ?_, nofun⟩⟩⟩
    exact fun _ _ _ hj => hj.elim
  · rw [if_neg ((s.remove_fst t 0 l).not.mpr hlink)]
    have hwon := h.won_of_unlinked hphase hlink
    refine ⟨_, .remove ⟨rfl, .inl rfl, .inr ⟨hbusy, hlook, ?_, ?_, nofun⟩⟩⟩
    · exact fun w hw => (hfits w hw).symm
    · exact fun hwinner => absurd hwinner hwon

omit [DecidableEq Λ] in
theorem shifts_arm {w : Wait Λ} (hphase : (s.coros t).phase = .arm w) :
    ∃ c', s.Shifts (s.arm t w) t c' := by
  have hadvances : ∀ {c' : Coro Λ}, (c'.phase = .withdraw w ∨ c'.phase = .suspended w) →
      (s.coros t).Advances c' := by
    intro c' hc'
    constructor
    · rw [hphase]
      nofun
    · rw [hphase]
      nofun
    · rw [hphase]
      intro w' hw'
      obtain hc' | hc' := hc' <;> rw [hc'] <;> exact hw'
    · rw [hphase]
      exact fun _ _ _ _ => trivial
    · intro hrun
      obtain hc' | hc' := hc' <;> cases hc'.symm.trans hrun
  refine ⟨_, .set ?_⟩
  split
  · exact ⟨rfl, .inl rfl, .inr (hadvances (.inl rfl))⟩
  · exact ⟨rfl, .inl rfl, .inr (hadvances (.inr rfl))⟩

theorem Inv.shifts_withdraw (h : Inv s) {w : Wait Λ} (hphase : (s.coros t).phase = .withdraw w) :
    ∃ c', s.Shifts (s.withdraw t w) t c' := by
  have hbusy : (s.coros t).phase ≠ .running := by rw [hphase]; nofun
  have hlook : ∀ w k, (s.coros t).phase ≠ .look w k := by rw [hphase]; nofun
  have hfits : ∀ w', (s.coros t).phase.Fits w' → w = w' := by
    rw [hphase]
    exact fun _ hw => hw
  have hsees : ∀ j, (s.coros t).phase.sees false j := by
    rw [hphase]
    exact fun _ => trivial
  cases w with
  | op l =>
    rw [State.withdraw_op]
    by_cases hlink : s.Link t 0 l
    · -- the node is in the list, so nobody has won
      rw [if_pos ((s.remove_fst t 0 l).mpr hlink)]
      have hopen := ((h.coros t).at_kind (show (s.coros t).phase.kind = .revoking by
        rw [hphase]; rfl)).1
      have hplain : (s.coros t).phase.plain = true := by rw [hphase]; rfl
      have hnone := (hopen.plain hplain 0 l hlink).1
      refine ⟨_, .remove ⟨rfl, .inl rfl, .inr ⟨hbusy, hlook, ?_, ?_, ?_⟩⟩⟩
      · exact fun _ _ => trivial
      · exact fun _ j _ _ => hsees j
      · intro _ _ k hk
        cases hnone.symm.trans hk
    · rw [if_neg ((s.remove_fst t 0 l).not.mpr hlink)]
      refine ⟨_, .remove ⟨rfl, .inl rfl, .inr ⟨hbusy, hlook, hfits, ?_, nofun⟩⟩⟩
      exact fun _ j _ _ => hsees j
  | select ops =>
    rw [State.withdraw_select]
    split
    · rename_i hnone
      refine ⟨_, .set ⟨rfl, .inr ⟨hnone, nofun⟩, .inr ⟨hbusy, hlook, ?_, ?_, nofun⟩⟩⟩
      · exact fun w hw => (hfits w hw).symm
      · exact fun _ j _ _ => hsees j
    · refine ⟨_, .set ⟨rfl, .inl rfl, .inr ⟨hbusy, hlook, hfits, ?_, nofun⟩⟩⟩
      exact fun _ j _ _ => hsees j

theorem Inv.shifts_detach (h : Inv s) {ops : List (Place Λ)} {why : Why} {k : Nat} {part : Part}
    (hphase : (s.coros t).phase = .detach ops why k part) :
    ∃ c', s.Shifts (s.detach t ops why k part) t c' := by
  have hbusy : (s.coros t).phase ≠ .running := by rw [hphase]; nofun
  have hlook : ∀ w k, (s.coros t).phase ≠ .look w k := by rw [hphase]; nofun
  have hgoes : ∀ {c' : Coro Λ} (k' : Nat) (part' : Part), c'.turn = (s.coros t).turn →
      c'.winner = (s.coros t).winner → c'.phase = .detach ops why k' part' →
      (s.coros t).Shifts c' := fun k' part' hturn hwinner hc' =>
    .leaves hphase hc' hturn hwinner nofun nofun nofun (fun _ hw => hw) fun _ hj => hj
  have hends : ∀ {c' : Coro Λ}, c'.turn = (s.coros t).turn →
      c'.winner = (s.coros t).winner → c'.phase = .running →
      (c'.answer = false → c'.winner = .cancelled) → (s.coros t).Shifts c' := by
    intro c' hturn hwinner hc' hanswer
    refine ⟨hturn, .inl hwinner, .inr ⟨hbusy, hlook, ?_, ?_, ?_⟩⟩
    · rw [hc']
      exact fun _ _ => trivial
    · rw [hc']
      exact fun _ _ _ hj => hj.elim
    · intro _ hno k hk
      cases (hanswer hno).symm.trans hk
  cases hplace : ops[k]? with
  | none =>
    rw [State.detach_none hplace]
    cases why with
    | undo =>
      exact ⟨_, .set (.leaves hphase rfl rfl rfl nofun nofun nofun (fun _ hw => hw) fun _ hj => hj)⟩
    | giveUp =>
      obtain ⟨-, hcancelled, -⟩ := (h.coros t).at_kind
        (show (s.coros t).phase.kind = .givingUp by rw [hphase]; rfl)
      exact ⟨_, .set (hends rfl rfl rfl fun _ => hcancelled)⟩
    | resume | again =>
      refine ⟨_, .set (hends rfl rfl rfl fun hno => ?_)⟩
      exact Decidable.of_not_not (of_decide_eq_false hno)
  | some place =>
    cases place with
    | listed l =>
      rw [State.detach_listed hplace]
      exact ⟨_, .remove (hgoes _ _ rfl rfl rfl)⟩
    | sleep =>
      obtain hsame | ⟨c', k', part', heq, hturn, hwinner, hphase'⟩ :=
        s.detach_sleep t why part hplace
      · rw [hsame]
        exact ⟨_, .refl s t⟩
      · rw [heq]
        exact ⟨_, .set (hgoes k' part' hturn hwinner hphase')⟩

omit [DecidableEq Λ] in
theorem shifts_readWinner {ops : List (Place Λ)} (hphase : (s.coros t).phase = .readWinner ops) :
    ∃ c', s.Shifts (s.readWinner t ops) t c' := by
  rw [State.readWinner_eq]
  split
  · exact ⟨_, .set (.leaves hphase rfl rfl rfl nofun nofun nofun (fun _ hw => hw) fun _ hj => hj)⟩
  · rename_i hwon
    refine ⟨_, .set ⟨rfl, .inl rfl, .inr ⟨?_, ?_, ?_, ?_, nofun⟩⟩⟩
    · rw [hphase]
      nofun
    · rw [hphase]
      nofun
    · rw [hphase]
      exact fun _ hw => hw.symm
    · exact fun hnone => absurd hnone hwon

theorem Inv.shifts_onCancel {w : Wait Λ} : ∃ c', s.Shifts (s.onCancel t w) t c' := by
  cases w with
  | op l =>
    rw [State.onCancel_op]
    split
    · exact ⟨_, .remove (.stays rfl rfl rfl rfl)⟩
    · exact ⟨_, .remove (.stays rfl rfl rfl rfl)⟩
  | select ops =>
    rw [State.onCancel_select]
    split
    · rename_i hnone
      exact ⟨_, .set ⟨rfl, .inr ⟨hnone, nofun⟩, .inl ⟨rfl, rfl⟩⟩⟩
    · exact ⟨_, .set (.stays rfl rfl rfl rfl)⟩

omit [DecidableEq Λ] in
theorem Inv.shifts_onFire (h : Inv s) (t k : Nat) : ∃ c', s.Shifts (s.onFire t k) t c' := by
  simp only [State.onFire]
  split
  · exact ⟨_, .refl s t⟩
  · exact ⟨_, .refl s t⟩
  · exact ⟨_, .set (.stays rfl rfl rfl rfl)⟩
  · split
    · exact ⟨_, .set (.stays rfl rfl rfl rfl)⟩
    · exact ⟨_, .set (.stays rfl rfl rfl rfl)⟩
  · rename_i n htimer
    split
    · rename_i hnone
      refine ⟨_, .set ⟨rfl, .inr ⟨hnone, ?_⟩, .inl ⟨rfl, rfl⟩⟩⟩
      intro j hj
      obtain rfl : k = j := Winner.index.inj hj
      exact (((h.coros t).sleeps k).claim n htimer).2
    · exact ⟨_, .set (.stays rfl rfl rfl rfl)⟩
  · exact ⟨_, .set (.stays rfl rfl rfl rfl)⟩
  · exact ⟨_, .set (.stays rfl rfl rfl rfl)⟩

theorem Inv.shifts (h : Inv s) (hstep : Inner s s') : ∃ t c', s.Shifts s' t c' := by
  cases hstep with
  | request t => exact ⟨t, _, .set (.stays rfl rfl rfl rfl)⟩
  | attach t w k hphase => exact ⟨t, Inv.shifts_attach hphase⟩
  | startTimer t w k hphase => exact ⟨t, shifts_startTimer hphase⟩
  | undo t l hphase => exact ⟨t, h.shifts_undo hphase⟩
  | arm t w hphase => exact ⟨t, shifts_arm hphase⟩
  | withdraw t w hphase => exact ⟨t, h.shifts_withdraw hphase⟩
  | detach t ops why k part hphase => exact ⟨t, h.shifts_detach hphase⟩
  | readWinner t ops hphase => exact ⟨t, shifts_readWinner hphase⟩
  | resume t w hphase hqueued =>
    cases w with
    | op l =>
      exact ⟨t, _, .set (.leaves hphase rfl rfl rfl nofun nofun nofun (fun _ hw => hw.symm)
        fun _ hj => hj)⟩
    | select ops =>
      exact ⟨t, _, .set (.leaves hphase rfl rfl rfl nofun nofun nofun (fun _ hw => hw.symm)
        fun _ hj => hj)⟩
  | resumed t l hphase =>
    refine ⟨t, _, .remove ⟨rfl, .inl rfl, .inr ⟨?_, ?_, ?_, ?_, ?_⟩⟩⟩
    · rw [hphase]
      nofun
    · rw [hphase]
      nofun
    · exact fun _ _ => trivial
    · exact fun _ _ _ hj => hj.elim
    · intro _ hno k hk
      have hcancelled : (s.coros t).winner = .cancelled :=
        Decidable.of_not_not (of_decide_eq_false hno)
      cases hcancelled.symm.trans hk
  | onCancel t w hhook => exact ⟨t, Inv.shifts_onCancel⟩
  | storeOwn t hpc =>
    -- `on_cancel` has taken the node, so nobody has won
    refine ⟨t, _, .set ⟨rfl, .inr ⟨?_, nofun⟩, .inl ⟨rfl, rfl⟩⟩⟩
    obtain ⟨who, haccount, -⟩ := ((h.coros t).hooked (.inr (by rw [hpc]; nofun))).1.account
    rw [hpc] at haccount
    exact haccount.of_store
  | enqueueSelf t hpc => exact ⟨t, _, .set (.stays rfl rfl rfl rfl)⟩
  | onFire t k => exact ⟨t, h.shifts_onFire t k⟩

end States

end Uvent.Sync.Suspension
