import Uvent.Queue.RecyclingRuns

/-!
# What another thread leaves alone

A step of one thread, in the queue or in the domain, changes nothing that another thread knows:
where this is, the slots of its record, and the segments that are linked.
-/

namespace Uvent.Queue.Recycling

open Uvent.Queue.Segmented
open Uvent.Reclaim

variable {α : Type} {size : Nat} {s s' : State α} {t t' k : Nat} {e : Hazard.Event}

theorem undisturbed_setQueue {m : State α} {next : Chain α × Pc α} (hne : t ≠ t')
    (hpc : m.pc = s.pc) (hseen : m.seen = s.seen)
    (hthread : m.domain.thread t = s.domain.thread t) (hrecord : m.domain.record = s.domain.record)
    (haddr : ∀ k ≤ s.queue.last, m.addr k = s.addr k)
    (hbirth : ∀ k ≤ s.queue.last, m.birth k = s.birth k) (htail : s.queue.tail ≤ next.1.tail)
    (hlast : s.queue.last ≤ next.1.last) : Undisturbed t s (m.setQueue t' next) where
  pc := (Function.update_of_ne hne ..).trans (congrFun hpc t)
  seen := congrFun hseen t
  thread := hthread
  kept := by
    intro r _
    have hsame : (m.setQueue t' next).domain.record = s.domain.record := hrecord
    unfold Hazard.Kept
    rw [hsame]
    exact ⟨rfl, rfl⟩
  addr := haddr
  birth := hbirth
  tail := htail
  last := hlast

theorem undisturbed_sameEnds {m : State α} {next : Chain α × Pc α} (hne : t ≠ t')
    (hpc : m.pc = s.pc) (hseen : m.seen = s.seen)
    (hthread : m.domain.thread t = s.domain.thread t) (hrecord : m.domain.record = s.domain.record)
    (haddr : m.addr = s.addr) (hbirth : m.birth = s.birth) (hends : SameEnds s.queue next.1) :
    Undisturbed t s (m.setQueue t' next) :=
  undisturbed_setQueue hne hpc hseen hthread hrecord (fun k _ => congrFun haddr k)
    (fun k _ => congrFun hbirth k) (Nat.le_of_eq hends.tail.symm) (Nat.le_of_eq hends.last.symm)

theorem undisturbed_run (h : Inv s) (hne : t ≠ t') (spurious : Bool)
    (hk : uses (s.pc t') = some k) (hplain : moves (s.pc t') = false) :
    Undisturbed t s (s.setQueue t' (exec size t' spurious s.queue (s.pc t'))) := by
  cases hswings : swings (s.pc t') with
  | none =>
      have hstays : Stays s.queue k (exec size t' spurious s.queue (s.pc t')) :=
        exec_stays spurious hk hplain hswings (h.order.fits t')
      exact undisturbed_sameEnds hne rfl rfl rfl rfl rfl rfl hstays.ends
  | some j =>
      cases hpc : s.pc t' with
      | swing carry op s₀ vs =>
          obtain ⟨-, hlast, htail⟩ := swingTail_kept s.queue s₀
          exact undisturbed_setQueue hne rfl rfl rfl rfl (fun _ _ => rfl) (fun _ _ => rfl) htail
            (Nat.le_of_eq hlast.symm)
      | swingLast op s₀ =>
          obtain ⟨-, hlast, htail⟩ := swingTail_kept s.queue s₀
          exact undisturbed_setQueue hne rfl rfl rfl rfl (fun _ _ => rfl) (fun _ _ => rfl) htail
            (Nat.le_of_eq hlast.symm)
      | _ =>
          rw [hpc] at hswings
          cases hswings

/-- The steps that take or link a segment or move `head_`. -/
theorem exec_ends (spurious : Bool) (q : Chain α) {pc : Pc α} (hmoves : moves pc = true) :
    q.tail ≤ (exec size t spurious q pc).1.tail ∧ q.last ≤ (exec size t spurious q pc).1.last := by
  cases pc with
  | loadNext carry op s vs =>
      simp only [exec]
      split
      · exact ⟨Nat.le_refl _, Nat.le_refl _⟩
      · split <;> exact ⟨Nat.le_refl _, Nat.le_refl _⟩
  | link carry op s fresh vs =>
      simp only [exec]
      split
      · rename_i hlast
        exact ⟨Nat.le_refl _, Nat.le_of_lt (Nat.lt_succ_of_le (Nat.le_of_eq hlast.symm))⟩
      · exact ⟨Nat.le_refl _, Nat.le_refl _⟩
  | swingHead max s =>
      simp only [exec, Chain.swingHead]
      split <;> exact ⟨Nat.le_refl _, Nat.le_refl _⟩
  | _ => cases hmoves

theorem obtained_ends (q : Chain α) (k : Nat) (pc : Pc α) : SameEnds q (obtained q k pc).1 := by
  cases pc with
  | protectTail carry op vs => cases vs <;> exact ⟨rfl, rfl, rfl⟩
  | _ => exact ⟨rfl, rfl, rfl⟩

theorem undisturbed_moves {m : State α} (hne : t ≠ t') (spurious : Bool) {pc : Pc α}
    (hmoves : moves pc = true) (hpc : m.pc = s.pc) (hseen : m.seen = s.seen)
    (hdomain : m.domain = s.domain) (haddr : ∀ k ≤ s.queue.last, m.addr k = s.addr k)
    (hbirth : ∀ k ≤ s.queue.last, m.birth k = s.birth k) :
    Undisturbed t s (m.setQueue t' (exec size t' spurious s.queue pc)) := by
  have hends : s.queue.tail ≤ (exec size t' spurious s.queue pc).1.tail ∧
      s.queue.last ≤ (exec size t' spurious s.queue pc).1.last := exec_ends spurious s.queue hmoves
  obtain ⟨htail, hlast⟩ := hends
  exact undisturbed_setQueue hne hpc hseen (by rw [hdomain]) (by rw [hdomain]) haddr hbirth htail
    hlast

theorem step_undisturbed (h : Inv s) (hstep : Step size s t' e s') (hne : t ≠ t') :
    Undisturbed t s s' := by
  cases hstep with
  | call c pc outside =>
      exact undisturbed_sameEnds hne rfl rfl rfl rfl rfl rfl (start_stays c).1
  | bind busy outside unbound =>
      exact undisturbed_domain h (.acquire t' outside unbound) hne rfl rfl rfl rfl rfl rfl
  | protect a r pc outside bound retired =>
      exact undisturbed_domain h (.protect t' r a outside bound) hne rfl rfl rfl rfl rfl rfl
  | inside e d busy midway unfinished own hstep =>
      refine undisturbed_domain h hstep hne rfl rfl rfl ?_ rfl rfl
      cases e with
      | load a => cases a <;> exact Function.update_of_ne hne ..
      | store | retire | other => rfl
  | obtained a p pc finished =>
      exact undisturbed_sameEnds hne rfl rfl (Function.update_of_ne hne ..) rfl rfl rfl
        (obtained_ends s.queue (s.seen t') (s.pc t'))
  | run spurious k pc plain => exact undisturbed_run h hne spurious pc plain
  | follow carry op k vs pc linked =>
      exact undisturbed_moves hne false rfl rfl rfl rfl (fun _ _ => rfl) fun _ _ => rfl
  | take carry op k vs a pc unlinked free deleted =>
      exact undisturbed_moves hne false rfl rfl rfl rfl (fun _ _ => rfl) fun _ _ => rfl
  | link carry op k seg vs a pc taken unlinked =>
      have hold : ∀ j ≤ s.queue.last, j ≠ k + 1 := fun j hj => by omega
      exact undisturbed_moves hne false rfl rfl rfl rfl
        (fun j hj => Function.update_of_ne (hold j hj) ..)
        fun j hj => Function.update_of_ne (hold j hj) ..
  | linkLost carry op k seg vs pc linked =>
      exact undisturbed_moves hne false rfl rfl rfl rfl (fun _ _ => rfl) fun _ _ => rfl
  | swingHead max k pc first =>
      exact undisturbed_moves hne false rfl rfl rfl rfl (fun _ _ => rfl) fun _ _ => rfl
  | swingHeadLost max k pc later =>
      exact undisturbed_moves hne false rfl rfl rfl rfl (fun _ _ => rfl) fun _ _ => rfl
  | retire k r pc waiting outside bound =>
      have hretire := Hazard.Step.retire (s := s.domain) t' r (s.addr k) outside bound
        (h.once waiting)
      exact undisturbed_domain h hretire hne rfl rfl rfl rfl rfl rfl
  | client e d pc foreign hstep =>
      exact undisturbed_domain h hstep hne rfl rfl rfl rfl rfl rfl

end Uvent.Queue.Recycling
