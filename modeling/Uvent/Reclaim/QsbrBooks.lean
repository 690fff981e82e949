import Uvent.Lib.Custody
import Uvent.Reclaim.Qsbr

/-!
# Where retired objects are

A retired object is in the list of one thread, among the orphans, or deleted, and carries the
epoch at which it was retired.
-/

namespace Uvent.Reclaim.Qsbr

open Uvent.Lib

def Pc.carried : Pc → List Retired
  | .sweep _ _ kept => kept
  | .dispose adopted => adopted
  | _ => []

def Thread.held (th : Thread) : List Retired := th.pc.carried ++ th.retired

inductive Place where
  | thread (t : Nat)
  | orphans
  | deleted
  deriving DecidableEq, Repr

def State.boxes (s : State) : Place → List Nat
  | .thread t => (s.thread t).held.map Retired.p
  | .orphans => s.orphans.map Retired.p
  | .deleted => s.deleted

variable {s s' : State} {t : Nat} {th : Thread} {e : Event} {ok : State → Event → Prop}

structure Books (s : State) : Prop where
  custody : Custody s.boxes
  known : ∀ b p, p ∈ s.boxes b → ∃ n, s.retiredAt p = some n
  stamped : ∀ t, ∀ x ∈ (s.thread t).held, x.epoch = s.stamp x.p
  orphans : ∀ x ∈ s.orphans, x.epoch = s.stamp x.p

theorem books_new : Books .new where
  custody := by
    have hnone : State.new.boxes = fun _ => [] := by
      funext b
      cases b <;> rfl
    rw [hnone]
    exact custody_nil
  known b p hp := by cases b <;> cases hp
  stamped _ _ := nofun
  orphans _ := nofun

theorem held_update (hth : th.held = (s.thread t).held) (t' : Nat) :
    (Function.update s.thread t th t').held = (s.thread t').held := by
  by_cases ht : t' = t
  · rw [ht, Function.update_self, hth]
  · rw [Function.update_of_ne ht]

theorem Books.pass (h : Books s) (hheld : ∀ t, (s'.thread t).held = (s.thread t).held)
    (horphans : s'.orphans = s.orphans) (hdeleted : s'.deleted = s.deleted)
    (hretired : s'.retiredAt = s.retiredAt) (hstamp : s'.stamp = s.stamp) : Books s' := by
  have hboxes : s'.boxes = s.boxes := by
    funext b
    cases b with
    | thread t => exact congrArg (List.map Retired.p) (hheld t)
    | orphans => exact congrArg (List.map Retired.p) horphans
    | deleted => exact hdeleted
  refine ⟨?_, ?_, fun t => ?_, ?_⟩
  · rw [hboxes]
    exact h.custody
  · rw [hboxes, hretired]
    exact h.known
  · rw [hheld, hstamp]
    exact h.stamped t
  · rw [horphans, hstamp]
    exact h.orphans

theorem Books.goto (h : Books s) {pc : Pc} (hpc : pc.carried = (s.thread t).pc.carried) :
    Books (s.goto t pc) := by
  refine h.pass (held_update ?_) rfl rfl rfl rfl
  unfold Thread.held
  rw [hpc]

/-- Objects pass from one place to another one when a thread moves. -/
theorem Books.move (h : Books s) {b₁ b₂ : Place} (hne : b₁ ≠ b₂)
    (hthread : s'.thread = Function.update s.thread t th)
    (hperm : (s'.boxes b₁ ++ s'.boxes b₂).Perm (s.boxes b₁ ++ s.boxes b₂))
    (hother : ∀ b, b ≠ b₁ → b ≠ b₂ → s'.boxes b = s.boxes b)
    (hretired : s'.retiredAt = s.retiredAt) (hstamp : s'.stamp = s.stamp)
    (hth : ∀ x ∈ th.held, x ∈ (s.thread t).held ∨ x ∈ s.orphans)
    (horphans : ∀ x ∈ s'.orphans, x ∈ (s.thread t).held ∨ x ∈ s.orphans) : Books s' := by
  refine ⟨h.custody.move hne hperm hother, fun b p hp => ?_, fun t' x hx => ?_, fun x hx => ?_⟩
  · rw [hretired]
    have hboth : p ∈ s'.boxes b₁ ∨ p ∈ s'.boxes b₂ → ∃ n, s.retiredAt p = some n := by
      rw [← List.mem_append, hperm.mem_iff, List.mem_append]
      exact fun hp => hp.elim (h.known b₁ p) (h.known b₂ p)
    by_cases h₁ : b = b₁
    · exact hboth (.inl (h₁ ▸ hp))
    · by_cases h₂ : b = b₂
      · exact hboth (.inr (h₂ ▸ hp))
      · rw [hother b h₁ h₂] at hp
        exact h.known b p hp
  · rw [hthread] at hx
    rw [hstamp]
    by_cases ht : t' = t
    · rw [ht, Function.update_self] at hx
      exact (hth x hx).elim (h.stamped t x) (h.orphans x)
    · rw [Function.update_of_ne ht] at hx
      exact h.stamped t' x hx
  · rw [hstamp]
    exact (horphans x hx).elim (h.stamped t x) (h.orphans x)

theorem boxes_update (b : Place) (hb : b ≠ .thread t) (horphans : b ≠ .orphans)
    (hdeleted : b ≠ .deleted) (hthread : s'.thread = Function.update s.thread t th) :
    s'.boxes b = s.boxes b := by
  cases b with
  | thread t' =>
      have ht : t' ≠ t := fun ht => hb (congrArg Place.thread ht)
      show (s'.thread t').held.map Retired.p = _
      rw [hthread, Function.update_of_ne ht]
      rfl
  | orphans => exact absurd rfl horphans
  | deleted => exact absurd rfl hdeleted

theorem boxes_thread (hthread : s'.thread = Function.update s.thread t th) :
    s'.boxes (.thread t) = th.held.map Retired.p := by
  show (s'.thread t).held.map Retired.p = _
  rw [hthread, Function.update_self]

theorem Books.retire (h : Books s) {p : Nat} (fresh : s.retiredAt p = none) :
    Books (s.retire t p) := by
  have hnew : ∀ b, p ∉ s.boxes b := by
    intro b hp
    obtain ⟨n, hn⟩ := h.known b p hp
    rw [fresh] at hn
    cases hn
  have hself : (s.retire t p).boxes (.thread t) = s.boxes (.thread t) ++ [p] := by
    refine (boxes_thread rfl).trans ?_
    show ((s.thread t).pc.carried ++ ((s.thread t).retired ++ _)).map Retired.p =
      ((s.thread t).pc.carried ++ (s.thread t).retired).map Retired.p ++ [p]
    simp
  have hother : ∀ b, b ≠ .thread t → (s.retire t p).boxes b = s.boxes b := by
    intro b hb
    cases b with
    | thread t' => exact boxes_update _ hb nofun nofun rfl
    | orphans | deleted => rfl
  have hstill : ∀ b, ∀ x : Retired, x.p ∈ s.boxes b → x.epoch = s.stamp x.p →
      x.epoch = (s.retire t p).stamp x.p := by
    intro b x hx hstamp
    refine hstamp.trans (Function.update_of_ne ?_ ..).symm
    rintro rfl
    exact hnew b hx
  refine ⟨h.custody.add hnew ?_ hother, fun b q hq => ?_, fun t' x hx => ?_, fun x hx => ?_⟩
  · rw [hself]
    exact List.perm_append_singleton p _
  · by_cases hqp : q = p
    · exact ⟨s.clock, by rw [hqp]; exact Function.update_self ..⟩
    · have hold : q ∈ s.boxes b := by
        by_cases hb : b = .thread t
        · rw [hb, hself, List.mem_append, List.mem_singleton] at hq
          rw [hb]
          exact hq.resolve_right hqp
        · rwa [hother b hb] at hq
      obtain ⟨n, hn⟩ := h.known b q hold
      exact ⟨n, (Function.update_of_ne hqp ..).trans hn⟩
  · by_cases ht : t' = t
    · have hx' : x ∈ (s.thread t).held ∨ x = ⟨p, s.globalEpoch⟩ := by
        rw [ht, show (s.retire t p).thread t = _ from Function.update_self ..] at hx
        unfold Thread.held at hx ⊢
        simpa [or_assoc] using hx
      rcases hx' with hx | rfl
      · exact hstill (.thread t) x (List.mem_map_of_mem hx) (h.stamped t x hx)
      · exact (Function.update_self p s.globalEpoch s.stamp).symm
    · rw [show (s.retire t p).thread t' = _ from Function.update_of_ne ht ..] at hx
      exact hstill (.thread t') x (List.mem_map_of_mem hx) (h.stamped t' x hx)
  · exact hstill .orphans x (List.mem_map_of_mem hx) (h.orphans x hx)

theorem Books.detachOrphans (h : Books s) {count : Nat} (pc : (s.thread t).pc = .detachOrphans) :
    Books
      ({ s with orphans := s.orphans ++ (s.thread t).retired, orphanCount := count }.setThread t
        { s.thread t with pc := .detachRelease, retired := [] }) := by
  have hheld : (s.thread t).held = (s.thread t).retired := by
    unfold Thread.held
    rw [pc]
    rfl
  have hne : Place.thread t ≠ .orphans := nofun
  refine h.move hne rfl ?_ (fun b hb horphans => ?_) rfl rfl nofun fun x hx => ?_
  · rw [boxes_thread rfl]
    show ((s.orphans ++ (s.thread t).retired).map Retired.p).Perm
      ((s.thread t).held.map Retired.p ++ s.orphans.map Retired.p)
    rw [hheld, List.map_append]
    exact List.perm_append_comm
  · cases b with
    | thread t' => exact boxes_update _ hb nofun nofun rfl
    | orphans => exact absurd rfl horphans
    | deleted => rfl
  · rw [hheld]
    exact (List.mem_append.mp hx).symm

theorem Books.delete (h : Books s) {x : Retired} (hth : (s.thread t).held.Perm (x :: th.held)) :
    Books ({ s with deleted := x.p :: s.deleted }.setThread t th) := by
  have hne : Place.thread t ≠ .deleted := nofun
  refine h.move hne rfl ?_ (fun b hb hdeleted => ?_) rfl rfl (fun y hy => ?_) fun _ => .inr
  · rw [boxes_thread rfl]
    show (th.held.map Retired.p ++ x.p :: s.deleted).Perm
      ((s.thread t).held.map Retired.p ++ s.deleted)
    calc List.map Retired.p th.held ++ x.p :: s.deleted
      _ |>.Perm (List.map Retired.p (x :: th.held) ++ s.deleted) := List.perm_middle
      _ |>.Perm ((s.thread t).held.map Retired.p ++ s.deleted) := (hth.symm.map _).append_right _
  · cases b with
    | thread t' => exact boxes_update _ hb nofun nofun rfl
    | orphans => rfl
    | deleted => exact absurd rfl hdeleted
  · exact .inl (hth.mem_iff.mpr (List.mem_cons_of_mem _ hy))

theorem Books.adopt (h : Books s) {p : Retired → Bool} {count : Nat}
    (pc : (s.thread t).pc.carried = []) :
    Books
      ({ s with orphans := s.orphans.filter fun x => !p x, orphanCount := count }.goto t
        (.dispose (s.orphans.filter p))) := by
  have hheld : (s.thread t).held = (s.thread t).retired := by
    unfold Thread.held
    rw [pc]
    rfl
  have hne : Place.thread t ≠ .orphans := nofun
  refine h.move hne rfl ?_ (fun b hb horphans => ?_) rfl rfl (fun x hx => ?_) fun x hx =>
    .inr (List.mem_filter.mp hx).1
  · rw [boxes_thread rfl]
    show ((s.orphans.filter p ++ (s.thread t).retired).map Retired.p ++
      (s.orphans.filter fun x => !p x).map Retired.p).Perm
      ((s.thread t).held.map Retired.p ++ s.orphans.map Retired.p)
    rw [hheld, ← List.map_append, ← List.map_append]
    refine List.Perm.map _ ?_
    calc (s.orphans.filter p ++ (s.thread t).retired) ++ s.orphans.filter (fun x => !p x)
        = s.orphans.filter p ++ ((s.thread t).retired ++ s.orphans.filter fun x => !p x) :=
          List.append_assoc ..
      _ |>.Perm ((s.thread t).retired ++ (s.orphans.filter p ++ s.orphans.filter fun x => !p x)) :=
          List.perm_append_comm_assoc ..
      _ |>.Perm ((s.thread t).retired ++ s.orphans) :=
          (List.filter_append_perm p s.orphans).append_left _
  · cases b with
    | thread t' => exact boxes_update _ hb nofun nofun rfl
    | orphans => exact absurd rfl horphans
    | deleted => rfl
  · have hx' : x ∈ s.orphans.filter p ∨ x ∈ (s.thread t).retired := List.mem_append.mp hx
    rcases hx' with hx | hx
    · exact .inr (List.mem_filter.mp hx).1
    · exact .inl (hheld ▸ hx)

theorem step_books (h : Books s) (hstep : Step s t e s') : Books s' := by
  have hkept : ∀ {t : Nat} {pc : Pc}, (s.thread t).pc.carried = [] → pc.carried = [] →
      Books (s.goto t pc) := fun hold hnew => h.goto (hnew.trans hold.symm)
  have hsame : ∀ {t : Nat} {th : Thread} {x : State}, x.thread = Function.update s.thread t th →
      th.held = (s.thread t).held → x.orphans = s.orphans → x.deleted = s.deleted →
      x.retiredAt = s.retiredAt → x.stamp = s.stamp → Books x := by
    intro t th x hthread hheld
    refine h.pass fun t' => ?_
    rw [hthread]
    exact held_update hheld t'
  have hempty : ∀ {t : Nat} {th : Thread} {x : State}, x.thread = Function.update s.thread t th →
      (s.thread t).pc.carried = [] → th.pc.carried = [] → th.retired = (s.thread t).retired →
      x.orphans = s.orphans → x.deleted = s.deleted → x.retiredAt = s.retiredAt →
      x.stamp = s.stamp → Books x := by
    intro t th x hthread hold hnew hretired
    refine hsame hthread ?_
    unfold Thread.held
    rw [hold, hnew, hretired]
  cases hstep with
  | attach pc | attachTry r rest pc | attachRetry r l pc | enter r pc | tick pc
  | scanEpoch m r which rest pc | scanFirst m pc | rescan pc | scanSafe m began pc
  | disposeEnd pc =>
      exact hkept (by rw [pc]; rfl) rfl
  | scanInUse m r which rest pc | scanActive m r which rest pc | compare e pc
  | countOrphans safe began pc =>
      exact hkept (by rw [pc]; rfl) (by split <;> rfl)
  | attachTake r rest pc | attachClear r pc | attachNew pc | attachPush r pc
  | detach r pc | detachRelease r pc | enterEpoch r e pc | enterActive r pc
  | advance pc =>
      exact hempty rfl (by rw [pc]; rfl) rfl rfl rfl rfl rfl rfl
  | leave r pc => exact hempty rfl (by rw [pc]; rfl) (by rw [pc]; rfl) rfl rfl rfl rfl rfl
  | detachOrphans pc =>
      split
      · exact hkept (by rw [pc]; rfl) rfl
      · exact h.detachOrphans pc
  | retire p pc fresh => exact h.retire fresh
  | sweepDelete safe began kept rest x pc next old =>
      refine h.delete ?_
      unfold Thread.held
      rw [pc, next]
      exact List.perm_middle
  | sweepKeep safe began kept rest x pc next young =>
      refine hsame rfl ?_ rfl rfl rfl rfl
      unfold Thread.held
      rw [pc, next]
      exact List.append_assoc ..
  | sweepEnd safe began kept pc none =>
      refine hsame rfl ?_ rfl rfl rfl rfl
      unfold Thread.held
      rw [pc, none]
      exact (List.append_nil _).symm
  | adopt safe began pc =>
      have hsplit : (fun r : Retired => decide (safe ≤ r.epoch)) =
          fun r => !decide (r.epoch < safe) := by
        funext r
        rw [← decide_not]
        exact decide_eq_decide.mpr Nat.not_lt.symm
      rw [hsplit]
      exact h.adopt (by rw [pc]; rfl)
  | dispose x rest pc =>
      refine h.delete ?_
      unfold Thread.held
      rw [pc]
      exact List.Perm.refl _

theorem books_of_runs (h : Runs ok s) : Books s :=
  h.holds (fun hs => hs ▸ books_new) fun _ ih hstep _ => step_books ih hstep

end Uvent.Reclaim.Qsbr
