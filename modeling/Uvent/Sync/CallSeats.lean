import Uvent.Sync.Calls
import Uvent.Sync.SuspensionShifts

/-!
# Calls and their suspensions

A coroutine is in a suspension exactly while its call waits, and the suspension is the one
that the call has begun.
-/

namespace Uvent.Sync.Suspension

variable {Λ : Type}

/-- A waker leaves a coroutine as it is, or gives a winner to one that is in a suspension. -/
structure Coro.Roused (c c' : Coro Λ) : Prop where
  phase : c'.phase = c.phase
  answer : c'.answer = c.answer
  awake : c.phase = .running → c' = c

theorem Coro.Roused.refl (c : Coro Λ) : c.Roused c := ⟨rfl, rfl, fun _ => rfl⟩

theorem Coro.Roused.trans {c₁ c₂ c₃ : Coro Λ} (h : c₁.Roused c₂) (h' : c₂.Roused c₃) :
    c₁.Roused c₃ where
  phase := h'.phase.trans h.phase
  answer := h'.answer.trans h.answer
  awake hrun := (h'.awake (h.phase.trans hrun)).trans (h.awake hrun)

theorem Phase.Fits.attachFrom (w : Wait Λ) (k : Nat) : (w.attachFrom k).Fits w := by
  unfold Wait.attachFrom
  split <;> rfl

theorem Phase.Fits.undo (w : Wait Λ) : w.undo.Fits w := by
  cases w <;> rfl

theorem Wait.attachFrom_ne (w : Wait Λ) (k : Nat) : w.attachFrom k ≠ .running := by
  unfold Wait.attachFrom
  split <;> nofun

theorem Wait.undo_ne (w : Wait Λ) : w.undo ≠ .running := by
  cases w <;> nofun

variable [DecidableEq Λ] {s : State Λ}

theorem Inv.roused_popFire (h : Inv s) (l : Λ) (u : Nat) :
    (s.coros u).Roused ((s.popFire l).2.coros u) := by
  cases hlist : s.lists l with
  | nil =>
    rw [State.popFire, hlist]
    exact .refl _
  | cons n nodes =>
    have hpop : s.popFire l = (s.setList l nodes).fire n := by
      rw [State.popFire, hlist]
      rfl
    rw [hpop]
    by_cases hlive : (s.coros n.coro).winner = .none
    · rw [State.fire_none (s := s.setList l nodes) hlive]
      by_cases hu : u = n.coro
      · subst hu
        change Coro.Roused _ (Function.update s.coros n.coro _ n.coro)
        rw [Function.update_self]
        refine ⟨rfl, rfl, fun hrun => ?_⟩
        -- its node is in the list, so it is in a suspension
        have hplace := (h.coros n.coro).place n.index l (by
          rw [State.Link, State.node, ← h.turns l n (hlist ▸ List.mem_cons_self)]
          exact hlist ▸ List.mem_cons_self)
        rw [hrun] at hplace
        cases hplace
      · change Coro.Roused _ (Function.update s.coros n.coro _ u)
        rw [Function.update_of_ne hu]
        exact .refl _
    · rw [State.fire_of_ne (s := s.setList l nodes) hlive]
      exact .refl _

theorem Inv.roused_wakeLoop (h : Inv s) (l : Λ) (fuel count u : Nat) :
    (s.coros u).Roused ((State.wakeLoop l fuel count s).coros u) := by
  induction fuel generalizing count s with
  | zero => exact .refl _
  | succ fuel ih =>
    cases count with
    | zero => exact .refl _
    | succ count =>
      rw [State.wakeLoop_succ]
      exact (h.roused_popFire l u).trans (ih (h.popFire l) _)

end Uvent.Sync.Suspension

namespace Uvent.Sync.Primitives

open Uvent.Sync.Suspension

variable {α : Type}

/-- A call that waits in `w`; `p` is where the check of its `attach` is. -/
structure Seat (coro : Coro ListId) (w : Wait ListId) (p : CheckPc) : Prop where
  fits : coro.phase.Fits w
  check : p = .first ∨ ∃ k l, coro.phase = .look w k ∧ w.places[k]? = some (.listed l)
  answer : coro.phase = .running → coro.answer = false → ∀ k, coro.winner ≠ .index k

def Pc.Sits (coro : Coro ListId) : Pc α → Prop
  | .waiting _ w p => Seat coro w p
  | _ => coro.phase = .running

theorem Seat.shifts {coro coro' : Coro ListId} {w : Wait ListId} {p : CheckPc}
    (h : Seat coro w p) (hshifts : coro.Shifts coro') : Seat coro' w p := by
  obtain ⟨hphase, hanswer⟩ | hadvances := hshifts.moves
  · refine ⟨?_, ?_, fun hrun hno k hk => ?_⟩
    · rw [hphase]
      exact h.fits
    · rw [hphase]
      exact h.check
    · rw [hphase] at hrun
      rw [hanswer] at hno
      obtain hsame | ⟨-, hplace⟩ := hshifts.winner
      · rw [hsame] at hk
        exact h.answer hrun hno k hk
      · have hsleep := hplace k hk
        rw [hrun] at hsleep
        cases hsleep
  · refine ⟨hadvances.fits w h.fits, .inl ?_, hadvances.answer⟩
    obtain hfirst | ⟨k, -, hlook, -⟩ := h.check
    · exact hfirst
    · exact absurd hlook (hadvances.look w k)

/-- A coroutine that is in no suspension stays where it is. -/
theorem Pc.Sits.shifts {coro coro' : Coro ListId} {pc : Pc α} (h : pc.Sits coro)
    (hshifts : coro.Shifts coro') : pc.Sits coro' := by
  have hrun : coro.phase = .running → coro'.phase = .running := by
    intro hphase
    obtain ⟨hsame, -⟩ | hadvances := hshifts.moves
    · rw [hsame, hphase]
    · exact absurd hphase hadvances.busy
  cases pc with
  | waiting c w p => exact Seat.shifts h hshifts
  | idle | trying | draining | pausing | direct | waking => exact hrun h

theorem Pc.Sits.roused {coro coro' : Coro ListId} {pc : Pc α} (h : pc.Sits coro)
    (hroused : coro.Roused coro') : pc.Sits coro' := by
  cases pc with
  | waiting c w p =>
    refine ⟨?_, ?_, fun hrun hno => ?_⟩
    · rw [hroused.phase]
      exact h.fits
    · rw [hroused.phase]
      exact h.check
    · rw [hroused.phase] at hrun
      rw [hroused.answer] at hno
      rw [hroused.awake hrun]
      exact h.answer hrun hno
  | idle | trying | draining | pausing | direct | waking => exact hroused.phase.trans h

structure Seated (s : State α) : Prop where
  inv : Inv s.waits
  sits : ∀ t, (s.pcs t).Sits (s.waits.coros t)

theorem seated_new (w : Words α) : Seated (State.new w) := ⟨inv_new, fun _ => rfl⟩

namespace Seated

variable {s : State α} {t : Nat}

theorem one {s' : State α} (h : Seated s) {c' : Coro ListId} {pc : Pc α} (hinv : Inv s'.waits)
    (hcoros : s'.waits.coros = Function.update s.waits.coros t c')
    (hpcs : s'.pcs = Function.update s.pcs t pc) (hpc : pc.Sits c') : Seated s' := by
  refine ⟨hinv, fun u => ?_⟩
  rw [hcoros, hpcs]
  by_cases hu : u = t
  · subst hu
    rw [Function.update_self, Function.update_self]
    exact hpc
  · rw [Function.update_of_ne hu, Function.update_of_ne hu]
    exact h.sits u

theorem goes {s' : State α} (h : Seated s) {pc : Pc α} (hwaits : s'.waits = s.waits)
    (hpcs : s'.pcs = Function.update s.pcs t pc) (hpc : pc.Sits (s.waits.coros t)) :
    Seated s' := by
  refine h.one (hwaits ▸ h.inv) ?_ hpcs hpc
  rw [hwaits, Function.update_eq_self]

theorem within {s' : State α} (h : Seated s) {c' : Coro ListId} (hinv : Inv s'.waits)
    (hcoros : s'.waits.coros = Function.update s.waits.coros t c') (hpcs : s'.pcs = s.pcs)
    (hpc : (s.pcs t).Sits c') : Seated s' := by
  refine h.one hinv hcoros ?_ hpc
  rw [hpcs, Function.update_eq_self]

theorem awake (h : Seated s) {pc : Pc α} (hpc : s.pcs t = pc) (hnot : ∀ c w p, pc ≠ .waiting c w p) :
    (s.waits.coros t).phase = .running := by
  have hsits := h.sits t
  rw [hpc] at hsits
  cases pc with
  | waiting c w p => exact absurd rfl (hnot c w p)
  | idle | trying | draining | pausing | direct | waking => exact hsits

theorem attempt_sits {coro : Coro ListId} (h : coro.phase = .running) (c : Ctx α) (k : Nat) :
    (c.attempt k).Sits coro := by
  rw [Ctx.attempt]
  split <;> exact h

theorem failed_sits {coro : Coro ListId} (h : coro.phase = .running) (c : Ctx α) (k : Nat) :
    (c.failed k).Sits coro := by
  rw [Ctx.failed]
  split
  · exact attempt_sits h c (k + 1)
  · split <;> exact h

theorem begin (h : Seated s) (hpc : s.pcs t = .idle) (call : Call α) (start : Nat) :
    Seated (s.begin t call start) := by
  have hrun := h.awake hpc nofun
  refine h.goes rfl rfl ?_
  split
  · exact hrun
  · exact attempt_sits hrun _ _

theorem attempt (h : Seated s) {c : Ctx α} {k : Nat} {p : TryPc} (hpc : s.pcs t = .trying c k p)
    (op : Op α) (spurious : Bool) : Seated (s.attempt t c k op p spurious) := by
  have hrun := h.awake hpc nofun
  simp only [State.attempt]
  split
  · exact h.goes rfl rfl hrun
  · exact h.goes rfl rfl (failed_sits hrun _ _)
  · exact h.goes rfl rfl hrun

theorem drain (h : Seated s) {c : Ctx α} {k : Nat} {p : Option EmptyPc} {alive : List Nat}
    (hpc : s.pcs t = .draining c k p alive) (cs : List Nat) (enqFirst : Bool) :
    Seated (s.drain t c cs k p alive enqFirst) := by
  have hrun := h.awake hpc nofun
  refine h.goes rfl rfl ?_
  split
  · split <;> exact hrun
  · split <;> exact hrun
  · split <;> exact hrun

/-- The check of an `attach` has answered. -/
theorem looks (h : Seated s) {s' : State α} {c : Ctx α} {w : Wait ListId} {k : Nat} {b : Bool}
    (hphase : (s.waits.coros t).phase = .look w k)
    (hsleep : w.places[k]? = some .sleep → b = !((s.waits.coros t).sleepers k).timer.fired)
    (hwaits : s'.waits = s.waits.look t w k b)
    (hpcs : s'.pcs = Function.update s.pcs t (.waiting c w .first)) : Seated s' := by
  have hcoros : s'.waits.coros = Function.update s.waits.coros t { s.waits.coros t with
      phase := if b then w.attachFrom (k + 1) else w.undo } := by
    rw [hwaits]
    rfl
  refine h.one (hwaits ▸ inv_step h.inv (.look t w k b hphase hsleep)) hcoros hpcs ?_
  have hgoes : (if b then w.attachFrom (k + 1) else w.undo).Fits w ∧
      (if b then w.attachFrom (k + 1) else w.undo) ≠ .running := by
    split
    · exact ⟨.attachFrom w (k + 1), w.attachFrom_ne (k + 1)⟩
    · exact ⟨.undo w, w.undo_ne⟩
  exact ⟨hgoes.1, .inl rfl, fun hrun => absurd hrun hgoes.2⟩

theorem load (h : Seated s) {c : Ctx α} {w : Wait ListId} {k : Nat} {l : ListId} {p : CheckPc}
    (hpc : s.pcs t = .waiting c w p) (hphase : (s.waits.coros t).phase = .look w k)
    (hplace : w.places[k]? = some (.listed l)) (enqFirst : Bool) :
    Seated (s.load t c w k l p enqFirst) := by
  have hsits := h.sits t
  rw [hpc] at hsits
  obtain ⟨p', hload⟩ | ⟨b, hload⟩ := s.load_cases t c w k l p enqFirst <;> rw [hload]
  · exact h.goes rfl rfl ⟨hsits.fits, .inr ⟨k, l, hphase, hplace⟩, hsits.answer⟩
  · refine h.looks hphase (fun hsleep => ?_) rfl rfl
    cases hplace.symm.trans hsleep

theorem direct (h : Seated s) {c : Ctx α} (hpc : s.pcs t = .direct c) : Seated (s.direct t c) := by
  have hrun := h.awake hpc nofun
  simp only [State.direct]
  split
  · split
    · exact h.goes rfl rfl hrun
    · exact h.goes rfl rfl hrun
  · split
    · exact h.goes rfl rfl hrun
    · exact h.goes rfl rfl hrun
  · split
    · exact h.goes rfl rfl hrun
    · exact h.goes rfl rfl hrun
  · exact h.goes rfl rfl hrun
  · exact h.goes rfl rfl hrun

theorem pause (h : Seated s) {c : Ctx α} {w : Wait ListId} (hpc : s.pcs t = .pausing c w) :
    Seated { s.setPc t (.waiting c w .first) with
      waits := s.waits.set t ((s.waits.coros t).start w) } := by
  have hrun := h.awake hpc nofun
  exact h.one (inv_step h.inv (.start t w hrun)) rfl rfl ⟨rfl, .inl rfl, nofun⟩

theorem check (h : Seated s) {c : Ctx α} {w : Wait ListId} {p : CheckPc}
    (hpc : s.pcs t = .waiting c w p) (hphase : (s.waits.coros t).phase = .check w) :
    Seated { s with waits := s.waits.set t (if (s.waits.coros t).requested
      then (s.waits.coros t).ownCancel
      else { s.waits.coros t with phase := w.attachFrom 0 }) } := by
  have hsits := h.sits t
  rw [hpc] at hsits
  have hfirst : p = .first := by
    obtain hfirst | ⟨k, -, hlook, -⟩ := hsits.check
    · exact hfirst
    · cases hphase.symm.trans hlook
  subst hfirst
  refine h.within (inv_step h.inv (.check t w hphase)) rfl rfl ?_
  rw [hpc]
  split
  · refine ⟨trivial, .inl rfl, fun _ _ k hk => ?_⟩
    have hnone := ((h.inv.coros t).at_kind (show (s.waits.coros t).phase.kind = .fresh by
      rw [hphase]; rfl)).2.1
    cases hnone.symm.trans hk
  · exact ⟨.attachFrom w 0, .inl rfl, fun hrun => absurd hrun (w.attachFrom_ne 0)⟩

theorem inner (h : Seated s) {waits : Suspension.State ListId} (hstep : Inner s.waits waits) :
    Seated { s with waits := waits } := by
  obtain ⟨t, c', hshifts⟩ := h.inv.shifts hstep
  exact h.within (inv_step h.inv hstep.step) hshifts.coros rfl ((h.sits t).shifts hshifts.coro)

theorem answer (h : Seated s) {c : Ctx α} {w : Wait ListId}
    (hphase : (s.waits.coros t).phase = .running) (start : Nat) :
    Seated (s.answer t c w start) := by
  refine h.goes rfl rfl ?_
  split
  · exact attempt_sits hphase _ _
  · exact hphase

theorem wakes (h : Seated s) (l : ListId) (count : Nat) :
    Seated { s with waits := s.waits.wake l count } :=
  ⟨h.inv.wake l count, fun u => (h.sits u).roused (h.inv.roused_wakeLoop l _ count u)⟩

theorem finalize (h : Seated s) {k : Nat} (hphase : (s.waits.coros t).phase = .running)
    (htimer : ((s.waits.coros t).sleepers k).timer = .armed ∨
      ((s.waits.coros t).sleepers k).timer = .ended) :
    Seated { s with waits := s.waits.set t ((s.waits.coros t).setTimer k .off) } := by
  refine h.within (inv_step h.inv (.finalize t k hphase htimer)) rfl rfl ?_
  exact (h.sits t).shifts (.stays rfl rfl rfl rfl)

theorem step {calls : Call α → Prop} {s' : State α} {who : Option Nat} (h : Seated s)
    (hstep : Step calls s who s') : Seated s' := by
  cases hstep with
  | begin t call start hpc _ _ => exact h.begin hpc call start
  | attempt t c k op p spurious hpc _ => exact h.attempt hpc op spurious
  | drain t c cs k p alive enqFirst hpc _ => exact h.drain hpc cs enqFirst
  | pause t c w hpc _ => exact h.pause hpc
  | check t c w p hpc hphase => exact h.check hpc hphase
  | inner waits hinner => exact h.inner hinner
  | load t c w k l p enqFirst hpc hphase hplace => exact h.load hpc hphase hplace enqFirst
  | loadFired t c w k p hpc hphase hplace =>
    have hsits := h.sits t
    rw [hpc] at hsits
    have hfirst : p = .first := by
      obtain hfirst | ⟨j, l, hlook, hlisted⟩ := hsits.check
      · exact hfirst
      · obtain rfl : k = j := (Phase.look.inj (hphase.symm.trans hlook)).2
        cases hplace.symm.trans hlisted
    subst hfirst
    have hpcs : s.pcs = Function.update s.pcs t (.waiting c w .first) := by
      rw [← hpc, Function.update_eq_self]
    exact h.looks hphase (fun _ => rfl) rfl hpcs
  | answer t c w p start hpc hphase => exact h.answer hphase start
  | peek t c l count rest a hpc =>
    have hrun := h.awake hpc nofun
    refine h.goes rfl rfl ?_
    split <;> exact hrun
  | wake t c l count rest a hpc =>
    have hrun := h.awake hpc nofun
    have hgoes : Seated (s.setPc t (.waking c rest false a)) := h.goes rfl rfl hrun
    exact hgoes.wakes l _
  | direct t c hpc => exact h.direct hpc
  | finalize t c a k hpc hphase htimer => exact h.finalize hphase htimer
  | finish t c a hpc _ => exact h.goes rfl rfl (h.awake hpc nofun)

end Seated

theorem seated_of_runs {calls : Call α → Prop} {ok : State α → Nat → Prop} {w : Words α}
    {s : State α} (h : Runs calls ok w s) : Seated s := by
  induction h with
  | start => exact seated_new w
  | step _ hstep _ ih => exact ih.step hstep

end Uvent.Sync.Primitives
