import Uvent.Tasks.JoinTree

/-!
# Live tasks

A task is counted at a node between its increment there and its decrement there.  The loop
of `retain_live_chain` has the part of the way up that is done behind it, that of
`drop_live_chain` the part that is not done in front of it.
-/

namespace Uvent.Tasks.Joins

open Uvent.Lib Uvent.Sync
open Uvent.Net.StateWord (Build)

/-- The task `n` is counted in `live_tasks` of `m`. -/
def Counts (s : State) (n m : Nat) : Prop :=
  match s.phase n with
  | .absent | .scope | .completed => False
  | .retaining cur => Above s.parent m n ∧ ¬OnWay s.parent m cur
  | .running | .stored | .done | .wakingDone => Above s.parent m n
  | .dropping cur => OnWay s.parent m cur
  | .draining x | .waking x => OnWay s.parent m (s.parent x)

def Phase.at : Phase → Option Nat
  | .retaining cur | .dropping cur => cur
  | .draining m | .waking m => some m
  | _ => none

structure Rooted (s : State) : Prop where
  grounded : Grounded s.parent
  small : ∀ b p, s.parent b = some p → b < s.next
  fresh : ∀ n, s.next ≤ n → s.phase n = .absent
  way : ∀ n m, (s.phase n).at = some m → Above s.parent m n

open Classical in
def Counted (s : State) : Prop :=
  ∀ m, Tallied (fun f : Nat → Prop => decide (f m)) (Counts s) (s.live m)

section Counts

variable {s s' : State} {n m : Nat}

open Classical in
/-- The spawn or the completion of `n` takes a step, which moves the counts as it moves the
counters. -/
theorem Counted.move (h : Counted s) (hparent : s'.parent = s.parent)
    (hphase : ∀ n', n' ≠ n → s'.phase n' = s.phase n')
    (hlive : ∀ m, s'.live m + (decide (Counts s n m)).toNat =
      s.live m + (decide (Counts s' n m)).toNat) : Counted s' := by
  have howns : Counts s' = Function.update (Counts s) n (Counts s' n) := by
    funext n'
    by_cases hn : n' = n
    · subst hn
      rw [Function.update_self]
    · rw [Function.update_of_ne hn]
      funext m
      unfold Counts
      rw [hphase n' hn, hparent]
  intro m
  have hm := hlive m
  have hold := h m
  rw [howns]
  cases hb : decide (Counts s n m) with
  | false =>
      cases ha : decide (Counts s' n m) with
      | false =>
          rw [hb, ha] at hm
          rw [show s'.live m = s.live m from hm]
          exact hold.same (ha.trans hb.symm)
      | true =>
          rw [hb, ha] at hm
          rw [show s'.live m = s.live m + 1 from hm]
          exact hold.gain hb ha
  | true =>
      cases ha : decide (Counts s' n m) with
      | false =>
          rw [hb, ha] at hm
          rw [show s.live m = s'.live m + 1 from hm.symm] at hold
          exact hold.lose hb ha
      | true =>
          rw [hb, ha] at hm
          simp only [Bool.toNat_true, Nat.add_right_cancel_iff] at hm
          rw [hm]
          exact hold.same (ha.trans hb.symm)

open Classical in
theorem Counted.of_iff (h : Counted s) (hparent : s'.parent = s.parent)
    (hphase : ∀ n', n' ≠ n → s'.phase n' = s.phase n') (hlive : s'.live = s.live)
    (hiff : ∀ m, Counts s' n m ↔ Counts s n m) : Counted s' := by
  refine h.move hparent hphase fun m => ?_
  rw [hlive, decide_eq_decide.mpr (hiff m)]

/-- The way up from a node of the way. -/
theorem Rooted.way_parent (h : Rooted s) (hat : (s.phase n).at = some m) {p : Nat}
    (hp : s.parent m = some p) : Above s.parent p n :=
  (Above.up hp .refl : Above s.parent p m).trans (h.way n m hat)

theorem Rooted.of_same (h : Rooted s) (hparent : s'.parent = s.parent) (hnext : s'.next = s.next)
    (hphase : ∀ n', n' ≠ n → s'.phase n' = s.phase n') (hbusy : s.phase n ≠ .absent)
    (hway : ∀ m, (s'.phase n).at = some m → Above s.parent m n) : Rooted s' := by
  refine ⟨hparent ▸ h.grounded, ?_, ?_, ?_⟩
  · rw [hparent, hnext]
    exact h.small
  · intro n' hn'
    rw [hnext] at hn'
    by_cases hn : n' = n
    · subst hn
      exact absurd (h.fresh n' hn') hbusy
    · rw [hphase n' hn]
      exact h.fresh n' hn'
  · intro n' m hat
    rw [hparent]
    by_cases hn : n' = n
    · subst hn
      exact hway m hat
    · rw [hphase n' hn] at hat
      exact h.way n' m hat

structure SameTree (s s' : State) : Prop where
  next : s'.next = s.next
  parent : s'.parent = s.parent
  phase : s'.phase = s.phase
  live : s'.live = s.live

theorem Counted.of_same (h : Counted s) (hsame : SameTree s s') : Counted s' := by
  have hcounts : Counts s' = Counts s := by
    funext n m
    unfold Counts
    rw [hsame.phase, hsame.parent]
  unfold Counted
  rw [hcounts, hsame.live]
  exact h

theorem Rooted.of_sameTree (h : Rooted s) (hsame : SameTree s s') : Rooted s' := by
  obtain ⟨hnext, hparent, hphase, -⟩ := hsame
  refine ⟨hparent ▸ h.grounded, ?_, ?_, ?_⟩
  · rw [hparent, hnext]
    exact h.small
  · rw [hphase, hnext]
    exact h.fresh
  · rw [hphase, hparent]
    exact h.way

theorem Rooted.new_childless (h : Rooted s) (b : Nat) : s.parent b ≠ some s.next := by
  intro hb
  exact absurd ((h.grounded b _ hb).trans (h.small b _ hb)) (lt_irrefl _)

theorem Rooted.at_lt (h : Rooted s) (hat : (s.phase n).at = some m) : m < s.next := by
  have hn : n < s.next := by
    by_contra hle
    rw [h.fresh n (by omega)] at hat
    cases hat
  exact lt_of_le_of_lt ((h.way n m hat).le h.grounded) hn

/-! ## New nodes -/

theorem counts_addNode_of_ne (h : Rooted s) {p : Option Nat} {phase : Phase} {n : Nat}
    (hn : n ≠ s.next) (m : Nat) : Counts (s.addNode p phase) n m ↔ Counts s n m := by
  have habove : Above (Function.update s.parent s.next p) m n ↔ Above s.parent m n :=
    above_extend h.new_childless hn
  have hcur : ∀ x, (s.phase n).at = some x → x ≠ s.next := fun x hx => (h.at_lt hx).ne
  have hphase : (s.addNode p phase).phase n = s.phase n := Function.update_of_ne hn ..
  unfold Counts
  rw [hphase]
  have hway : ∀ x, (s.phase n).at = some x →
      (OnWay (Function.update s.parent s.next p) m (Function.update s.parent s.next p x) ↔
        OnWay s.parent m (s.parent x)) := by
    intro x hx
    rw [Function.update_of_ne (hcur x hx)]
    exact onWay_extend h.new_childless (h.new_childless x)
  have hopt : ∀ cur, (s.phase n).at = cur →
      (OnWay (Function.update s.parent s.next p) m cur ↔ OnWay s.parent m cur) := by
    rintro cur hat
    refine onWay_extend h.new_childless fun hnew => hcur s.next ?_ rfl
    rw [hat, hnew]
  cases hp : s.phase n with
  | absent | scope | completed => exact Iff.rfl
  | retaining cur =>
      rw [hp] at hopt
      exact and_congr habove (not_congr (hopt cur rfl))
  | running | stored | done | wakingDone => exact habove
  | dropping cur =>
      rw [hp] at hopt
      exact hopt cur rfl
  | draining x | waking x =>
      rw [hp] at hway
      exact hway x rfl

/-- A node that is linked, and not counted yet, changes no count. -/
theorem Counted.addNode (h : Counted s) (hr : Rooted s) {p : Option Nat} {phase : Phase}
    (hphase : phase = .scope ∨ phase = .retaining (some s.next)) :
    Counted (s.addNode p phase) := by
  have hcounts : Counts (s.addNode p phase) = Counts s := by
    funext n m
    by_cases hn : n = s.next
    · subst hn
      refine propext ?_
      unfold Counts
      rw [hr.fresh s.next (Nat.le_refl _),
        show (s.addNode p phase).phase s.next = phase from Function.update_self ..]
      rcases hphase with rfl | rfl
      · exact Iff.rfl
      · simp
    · exact propext (counts_addNode_of_ne hr hn m)
  unfold Counted
  rw [hcounts]
  exact h

theorem Rooted.addNode (h : Rooted s) {p : Option Nat} {phase : Phase}
    (hp : ∀ q, p = some q → s.phase q ≠ .absent)
    (hphase : phase = .scope ∨ phase = .retaining (some s.next)) : Rooted (s.addNode p phase) := by
  have hlt : ∀ q, p = some q → q < s.next := by
    intro q hq
    by_contra hle
    exact hp q hq (h.fresh q (by omega))
  refine ⟨?_, ?_, ?_, ?_⟩
  · intro b q hq
    by_cases hb : b = s.next
    · subst hb
      rw [show (s.addNode p phase).parent s.next = p from Function.update_self ..] at hq
      exact hlt q hq
    · rw [show (s.addNode p phase).parent b = s.parent b from Function.update_of_ne hb ..] at hq
      exact h.grounded b q hq
  · intro b q hq
    by_cases hb : b = s.next
    · subst hb
      exact Nat.lt_succ_self _
    · rw [show (s.addNode p phase).parent b = s.parent b from Function.update_of_ne hb ..] at hq
      exact Nat.lt_succ_of_lt (h.small b q hq)
  · intro n hn
    have hle : s.next + 1 ≤ n := hn
    rw [show (s.addNode p phase).phase n = s.phase n from Function.update_of_ne (by omega) ..]
    exact h.fresh n (by omega)
  · intro n m hat
    by_cases hn : n = s.next
    · subst hn
      rw [show (s.addNode p phase).phase s.next = phase from Function.update_self ..] at hat
      rcases hphase with rfl | rfl
      · cases hat
      · obtain rfl := Option.some.inj hat
        exact .refl
    · rw [show (s.addNode p phase).phase n = s.phase n from Function.update_of_ne hn ..] at hat
      exact (above_extend h.new_childless hn).mpr (h.way n m hat)

/-! ## The loops -/

theorem advance_tree (s : State) (n : Nat) :
    (s.advance n).next = s.next ∧ (s.advance n).parent = s.parent ∧
      ∀ n', n' ≠ n → (s.advance n).phase n' = s.phase n' := by
  have hset : ∀ (s' : State) (p : Phase), s'.next = s.next → s'.parent = s.parent →
      s'.phase = s.phase → (s'.setPhase n p).next = s.next ∧
        (s'.setPhase n p).parent = s.parent ∧
        ∀ n', n' ≠ n → (s'.setPhase n p).phase n' = s.phase n' := by
    intro s' p hnext hparent hphase
    refine ⟨hnext, hparent, fun n' hn => ?_⟩
    rw [← hphase]
    exact Function.update_of_ne hn ..
  unfold State.advance
  split
  · exact ⟨rfl, rfl, fun _ _ => rfl⟩
  · exact ⟨rfl, rfl, fun _ _ => rfl⟩
  · exact ⟨rfl, rfl, fun _ _ => rfl⟩
  · exact hset _ _ rfl rfl rfl
  · exact hset _ _ rfl rfl rfl
  · exact hset _ _ rfl rfl rfl
  · exact hset _ _ rfl rfl rfl
  · exact hset _ _ rfl rfl rfl
  · exact hset _ _ rfl rfl rfl
  · exact hset _ _ rfl rfl rfl
  · exact hset _ _ rfl rfl rfl
  · exact hset _ _ rfl rfl rfl
  · split
    · exact hset _ _ rfl rfl rfl
    · exact hset _ _ rfl rfl rfl

theorem advance_retain (hp : s.phase n = .retaining (some m)) :
    (s.advance n).phase n = .retaining (s.parent m) ∧
      (s.advance n).live = Function.update s.live m (s.live m + 1) := by
  unfold State.advance
  rw [hp]
  exact ⟨Function.update_self .., rfl⟩

theorem advance_drop (hp : s.phase n = .dropping (some m)) :
    ((s.advance n).phase n = .draining m ∨ (s.advance n).phase n = .dropping (s.parent m)) ∧
      (s.advance n).live = Function.update s.live m (s.live m - 1) := by
  unfold State.advance
  rw [hp]
  refine ⟨?_, rfl⟩
  by_cases hone : s.live m = 1
  · exact .inl ((Function.update_self ..).trans (if_pos hone))
  · exact .inr ((Function.update_self ..).trans (if_neg hone))

inductive Passes (s : State) (n : Nat) : Phase → Phase → Prop where
  | away {p : Phase} (hp : p = .absent ∨ p = .scope ∨ p = .completed) : Passes s n p p
  | spawned : Passes s n (.retaining none) .running
  | store : Passes s n .running .stored
  | status : Passes s n .stored .done
  | quiet : Passes s n .done (.dropping (some n))
  | tell : Passes s n .done .wakingDone
  | told : Passes s n .wakingDone (.dropping (some n))
  | finish : Passes s n (.dropping none) .completed
  | lone (m : Nat) : Passes s n (.draining m) (.dropping (s.parent m))
  | wake (m : Nat) : Passes s n (.draining m) (.waking m)
  | woken (m : Nat) : Passes s n (.waking m) (.dropping (s.parent m))

@[simp] theorem setPhase_self (s : State) (n : Nat) (p : Phase) : (s.setPhase n p).phase n = p :=
  Function.update_self ..

theorem advance_passes (hretain : ∀ m, s.phase n ≠ .retaining (some m))
    (hdrop : ∀ m, s.phase n ≠ .dropping (some m)) :
    Passes s n (s.phase n) ((s.advance n).phase n) ∧ (s.advance n).live = s.live := by
  unfold State.advance
  cases hp : s.phase n with
  | absent =>
      dsimp only
      rw [hp]
      exact ⟨.away (.inl rfl), rfl⟩
  | scope =>
      dsimp only
      rw [hp]
      exact ⟨.away (.inr (.inl rfl)), rfl⟩
  | completed =>
      dsimp only
      rw [hp]
      exact ⟨.away (.inr (.inr rfl)), rfl⟩
  | retaining cur =>
      cases cur with
      | none =>
          rw [setPhase_self]
          exact ⟨.spawned, rfl⟩
      | some m => exact absurd hp (hretain m)
  | running =>
      rw [setPhase_self]
      exact ⟨.store, rfl⟩
  | stored =>
      rw [setPhase_self]
      exact ⟨.status, rfl⟩
  | done =>
      rw [setPhase_self]
      split
      · exact ⟨.quiet, rfl⟩
      · exact ⟨.tell, rfl⟩
  | wakingDone =>
      rw [setPhase_self]
      exact ⟨.told, rfl⟩
  | dropping cur =>
      cases cur with
      | none =>
          rw [setPhase_self]
          exact ⟨.finish, rfl⟩
      | some m => exact absurd hp (hdrop m)
  | draining m =>
      rw [setPhase_self]
      split
      · exact ⟨.lone m, rfl⟩
      · exact ⟨.wake m, rfl⟩
  | waking m =>
      rw [setPhase_self]
      dsimp only
      split
      · exact ⟨.woken m, rfl⟩
      · exact ⟨.woken m, rfl⟩

open Classical in
theorem Counted.advance (h : Counted s) (hr : Rooted s) (n : Nat) : Counted (s.advance n) := by
  obtain ⟨-, hparent, hphase⟩ := advance_tree s n
  by_cases hretain : ∃ m, s.phase n = .retaining (some m)
  · obtain ⟨m, hp⟩ := hretain
    obtain ⟨hnew, hlive⟩ := advance_retain hp
    have hin : Above s.parent m n := hr.way n m (by rw [hp]; rfl)
    have hbefore : ∀ x, Counts s n x ↔ Above s.parent x n ∧ ¬(x = m ∨ OnWay s.parent x (s.parent m)) := by
      intro x
      unfold Counts
      rw [hp, ← above_iff]
      exact and_congr Iff.rfl (not_congr onWay_some)
    have hafter : ∀ x, Counts (s.advance n) n x ↔
        Above s.parent x n ∧ ¬OnWay s.parent x (s.parent m) := by
      intro x
      unfold Counts
      rw [hnew, hparent]
    refine h.move hparent hphase fun x => ?_
    rw [hlive, decide_eq_decide.mpr (hbefore x), decide_eq_decide.mpr (hafter x)]
    by_cases hx : x = m
    · subst hx
      have hout : ¬(Above s.parent x n ∧ ¬(x = x ∨ OnWay s.parent x (s.parent x))) :=
        fun hc => hc.2 (.inl rfl)
      have hnow : Above s.parent x n ∧ ¬OnWay s.parent x (s.parent x) :=
        ⟨hin, not_onWay_parent hr.grounded⟩
      rw [Function.update_self, decide_eq_false hout, decide_eq_true hnow]
      rfl
    · rw [Function.update_of_ne hx]
      simp [hx]
  by_cases hdrop : ∃ m, s.phase n = .dropping (some m)
  · obtain ⟨m, hp⟩ := hdrop
    obtain ⟨hnew, hlive⟩ := advance_drop hp
    have hin : Counts s n m := by
      unfold Counts
      rw [hp]
      exact onWay_some.mpr .refl
    have hpos : 0 < s.live m := (h m).pos (decide_eq_true hin)
    have hafter : ∀ x, Counts (s.advance n) n x ↔ OnWay s.parent x (s.parent m) := by
      intro x
      unfold Counts
      rw [hparent]
      rcases hnew with hq | hq
      · rw [hq]
      · rw [hq]
    refine h.move hparent hphase fun x => ?_
    rw [hlive, decide_eq_decide.mpr (hafter x)]
    by_cases hx : x = m
    · subst hx
      rw [Function.update_self, decide_eq_true hin, decide_eq_false (not_onWay_parent hr.grounded)]
      simp only [Bool.toNat_true, Bool.toNat_false]
      omega
    · have hbefore : Counts s n x ↔ OnWay s.parent x (s.parent m) := by
        unfold Counts
        rw [hp]
        dsimp only
        rw [onWay_some, above_iff]
        simp [hx]
      rw [Function.update_of_ne hx, decide_eq_decide.mpr hbefore]
  · obtain ⟨hpass, hlive⟩ := advance_passes (fun m hp => hretain ⟨m, hp⟩)
      (fun m hp => hdrop ⟨m, hp⟩)
    refine h.of_iff hparent hphase hlive fun x => ?_
    unfold Counts
    rw [hparent]
    generalize s.phase n = p at hpass ⊢
    generalize (s.advance n).phase n = q at hpass ⊢
    cases hpass with
    | away | tell | wake | woken | store | status | lone => exact Iff.rfl
    | spawned => simp
    | quiet | told => exact onWay_some
    | finish => simp

theorem Rooted.advance (h : Rooted s) (n : Nat) : Rooted (s.advance n) := by
  obtain ⟨hnext, hparent, hphase⟩ := advance_tree s n
  by_cases habsent : s.phase n = .absent
  · have hsame : s.advance n = s := by
      unfold State.advance
      rw [habsent]
    rw [hsame]
    exact h
  refine h.of_same hparent hnext hphase habsent fun m hat => ?_
  by_cases hretain : ∃ m, s.phase n = .retaining (some m)
  · obtain ⟨m', hp⟩ := hretain
    rw [(advance_retain hp).1] at hat
    exact h.way_parent (by rw [hp]; rfl) hat
  by_cases hdrop : ∃ m, s.phase n = .dropping (some m)
  · obtain ⟨m', hp⟩ := hdrop
    have hcur : (s.phase n).at = some m' := by rw [hp]; rfl
    rcases (advance_drop hp).1 with hq | hq
    · rw [hq] at hat
      obtain rfl := Option.some.inj hat
      exact h.way n m' hcur
    · rw [hq] at hat
      exact h.way_parent hcur hat
  obtain ⟨hpass, -⟩ := advance_passes (fun m hp => hretain ⟨m, hp⟩) (fun m hp => hdrop ⟨m, hp⟩)
  have hold := h.way n
  have hup : ∀ x, (s.phase n).at = some x → s.parent x = some m → Above s.parent m n :=
    fun x hcur hp => h.way_parent hcur hp
  generalize s.phase n = p at hpass hold hup
  generalize (s.advance n).phase n = q at hpass hat
  cases hpass with
  | away => exact hold m hat
  | spawned | store | status | tell | finish => cases hat
  | quiet | told =>
      obtain rfl := Option.some.inj hat
      exact .refl
  | wake x => exact hold m hat
  | lone x | woken x => exact hup x rfl hat

end Counts

end Uvent.Tasks.Joins
