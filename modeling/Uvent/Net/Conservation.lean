import Uvent.Net.ForwardingSteps

/-!
# References are conserved

In every run whose steps meet the condition `Careful` the count of the header is
the number of its references, the reference of the timer is dropped once, and
`destroy` runs when the last one is gone.
-/

namespace Uvent.Net.Forwarding

open Uvent.Lib Uvent.Net.StateWord

section Runs

variable {owner : Nat} {w w' : Workers} {t : Nat}

theorem step_inv {n : Nat} {live : Bool} (h : Inv owner n live w) (hcareful : Careful w t)
    (hstep : Step owner w t w') : ∃ n' live', Inv owner n' live' w' := by
  cases hstep with
  | call pc x timeoutMs idle live hpc =>
      have hlive : ∀ y, some x = some y → y ∈ w.shared.handles := by
        intro y hy
        obtain rfl := Option.some.inj hy
        exact live
      refine ⟨_, _, h.go ?_ ?_ ?_ ⟨?_, ?_, ?_, ?_, ?_⟩⟩ <;>
        simp only [List.mem_cons, List.not_mem_nil, or_false] at hpc <;>
        rcases hpc with rfl | rfl | rfl | rfl <;>
        first
          | rw [idle]; rfl
          | exact hlive
          | simp [Pc.ownerOnly, Pc.forwardsDestroy, Pc.tears]
  | drop x idle live unused => exact ⟨_, _, h.drop_handle idle live unused⟩
  | fire idle home armed => exact ⟨_, _, fire_inv h idle home armed⟩
  | apply op rest idle home queued => exact ⟨_, _, apply_inv h idle home queued⟩
  | exec busy => exact exec_inv h hcareful

theorem inv_new (owner : Nat) : Inv owner 0 false ⟨.new, fun _ => .idle⟩ := by
  have hquiet : ¬Awaited ⟨.new, fun _ => .idle⟩ := by
    rintro (hops | ⟨t, ht⟩)
    · simp [Header.new] at hops
    · simp [Pc.awaits] at ht
  refine ⟨⟨tallied_zero_iff.mpr fun _ => rfl, by decide, rfl, by decide, by simp, ?_⟩, ?_, ?_, ?_⟩
  · exact fun _ => .inr ⟨rfl, rfl, hquiet⟩
  · exact ⟨by simp [Header.new], by simp [Header.new], by simp [Pc.inCallback], Nat.one_pos⟩
  · exact fun t => fits_idle owner t _
  · refine ⟨by simp [Header.new], by simp [Header.new], ?_, by simp [Header.new], ?_⟩
    · exact fun hclosed => absurd hclosed (by decide)
    · simp [Header.new]

theorem runs_inv (h : Runs owner Careful w) : ∃ n live, Inv owner n live w := by
  refine h.holds (fun hw => ⟨0, false, hw ▸ inv_new owner⟩) fun _ ih hstep meets => ?_
  obtain ⟨n, live, hinv⟩ := ih
  exact step_inv hinv meets hstep

/-- The timer is armed, or something on the way arms it or claims its reference,
and its reference is not claimed. -/
def Unclaimed (w : Workers) : Prop :=
  w.shared.claimed = false ∧ (w.shared.wheel.isSome = true ∨ Awaited w)

/-- The count of a header in a state of a run.  In every state the calls in
progress are counted with the references they have; when none is in progress the
references are the handles and that of the timer. -/
structure Conserved (w : Workers) : Prop where
  counted : ∃ n, Tallied Pc.ownsRef w.own n ∧
    (Unclaimed w ∧ countOf w.shared.state = w.shared.handles.card + n + 1 ∨
      ¬Unclaimed w ∧ countOf w.shared.state = w.shared.handles.card + n)
  settled : Quiet w → countOf w.shared.state = w.shared.handles.card + w.shared.timerRef
  dropped : Quiet w → w.shared.taken = w.shared.dropped + w.shared.timerRef
  ended : Quiet w → w.shared.handles = ∅ → w.shared.timerRef = 0 →
    countOf w.shared.state = 0 ∧ w.shared.destroys = 1
  alive : countOf w.shared.state ≠ 0 → w.shared.destroys = 0

theorem Ownerless.unclaimed_iff {live : Bool} (h : Ownerless live w) :
    live = true ↔ Unclaimed w := by
  constructor
  · exact h.alive
  · rintro ⟨hfree, hthere⟩
    by_contra hl
    rcases h.spent (by simpa using hl) with hclaimed | ⟨-, hnone, hquiet⟩
    · rw [hfree] at hclaimed
      simp at hclaimed
    · rw [hnone] at hthere
      exact hquiet (hthere.resolve_left (by simp))

theorem Quiet.awaited_iff (h : Quiet w) : Awaited w ↔ w.shared.ops.any (·.isTimeout) = true := by
  refine ⟨fun ha => ha.resolve_right ?_, .inl⟩
  rintro ⟨t, ht⟩
  rw [h t] at ht
  simp [Pc.awaits] at ht

theorem Quiet.timerRef_eq {live : Bool} (h : Quiet w) (htimer : Ownerless live w) :
    w.shared.timerRef = live.toNat := by
  have hiff := htimer.unclaimed_iff
  unfold Unclaimed at hiff
  rw [h.awaited_iff] at hiff
  unfold Header.timerRef
  cases live with
  | true => exact if_pos (hiff.mp rfl)
  | false => exact if_neg fun hu => absurd (hiff.mpr hu) (by simp)

theorem Quiet.tally_eq {p : Pc → Bool} {n : Nat} (h : Quiet w) (htally : Tallied p w.own n)
    (hp : p .idle = false) : n = 0 := by
  refine htally.eq_zero fun t => ?_
  rw [h t]
  exact hp

/-- In every run whose steps are careful the references are conserved. -/
theorem conserved_of_careful (h : Runs owner Careful w) : Conserved w := by
  obtain ⟨n, live, hinv⟩ := runs_inv h
  have hbooks := hinv.books
  have hcount := hbooks.count
  have hsettled : Quiet w →
      countOf w.shared.state = w.shared.handles.card + w.shared.timerRef := by
    intro hquiet
    rw [hcount, hquiet.tally_eq hbooks.tally rfl, hquiet.timerRef_eq hbooks.timer, Nat.add_zero]
  refine ⟨⟨n, hbooks.tally, ?_⟩, hsettled, ?_, ?_, ?_⟩
  · rw [← hbooks.timer.unclaimed_iff]
    cases live with
    | true => exact .inl ⟨rfl, hcount⟩
    | false => exact .inr ⟨by simp, hcount⟩
  · intro hquiet
    rw [hbooks.ledger, hquiet.tally_eq hbooks.tally rfl, hquiet.timerRef_eq hbooks.timer, Nat.add_zero]
  · intro hquiet hnone hfree
    have hzero : countOf w.shared.state = 0 := by
      rw [hsettled hquiet, hnone, hfree, Finset.card_empty]
    exact ⟨hzero, by rw [hbooks.destroys, if_pos hzero]⟩
  · intro hne
    rw [hbooks.destroys, if_neg hne]

def advance (w : Workers) : Workers := w.move 1 (exec 0 1 w.shared (w.own 1))

/-- Worker 1 calls `set_timeout_ms`, up to its load of `timer_id`. -/
def callSet (w : Workers) : Workers := w.move 1 (w.shared, .setLoad 0 5)

def armed : Workers :=
  advance (advance (advance (advance (advance (callSet ⟨.new, fun _ => .idle⟩)))))

theorem runs_advance {ok : Workers → Nat → Prop} (h : Runs 0 ok w) (hok : ok w 1)
    (hbusy : w.own 1 ≠ .idle) : Runs 0 ok (advance w) :=
  h.step (.exec hbusy) hok

theorem runs_callSet {ok : Workers → Nat → Prop} (h : Runs 0 ok w) (hok : ok w 1)
    (hidle : w.own 1 = .idle) (hlive : 0 ∈ w.shared.handles) : Runs 0 ok (callSet w) :=
  h.step (.call _ 0 5 hidle hlive (by simp)) hok

theorem armed_conserved :
    armed.shared.ops = [.timeout 5] ∧ countOf armed.shared.state = 2 ∧ Conserved armed := by
  have hquiet : ¬Awaited (advance (advance (callSet ⟨.new, fun _ => .idle⟩))) := by
    rintro (hops | ⟨t, ht⟩)
    · exact absurd hops (by decide)
    · by_cases h1 : t = 1
      · subst h1
        exact absurd ht (by decide)
      · simp [advance, callSet, move_own_of_ne h1, Pc.awaits] at ht
  have hcall := runs_callSet (.start rfl : Runs 0 Careful _) trivial rfl (by decide)
  have hroom : countOf (initialState) < 2 ^ refcountBits - 1 := by decide
  have htake := runs_advance (runs_advance hcall trivial (by decide)) hroom (by decide)
  have hclear := runs_advance htake (.inr ⟨by decide, hquiet⟩) (by decide)
  have hpush := runs_advance (runs_advance hclear trivial (by decide)) trivial (by decide)
  exact ⟨by decide, by decide, conserved_of_careful hpush⟩

/-- A second `set_timeout_ms` before the owner applies the first arm. -/
def armedTwice : Workers := advance (advance (advance (advance (advance (callSet armed)))))

theorem armedTwice_not_conserved :
    Runs 0 (fun _ _ => True) armedTwice ∧ Quiet armedTwice ∧
      countOf armedTwice.shared.state = 3 ∧ armedTwice.shared.handles.card = 1 ∧
      armedTwice.shared.timerRef = 1 ∧ ¬Conserved armedTwice := by
  have hquiet : Quiet armedTwice := by
    intro t
    by_cases h1 : t = 1
    · subst h1
      decide
    · simp [armedTwice, armed, advance, callSet, move_own_of_ne h1]
  refine ⟨?_, hquiet, by decide, by decide, by decide, ?_⟩
  · have hcall := runs_callSet (.start rfl : Runs 0 (fun _ _ => True) _) trivial rfl (by decide)
    have htake := runs_advance (runs_advance hcall trivial (by decide)) trivial (by decide)
    have harm := runs_advance (runs_advance (runs_advance htake trivial (by decide)) trivial
      (by decide)) trivial (by decide)
    have hagain := runs_callSet harm trivial (by decide) (by decide)
    have hmore := runs_advance (runs_advance hagain trivial (by decide)) trivial (by decide)
    exact runs_advance (runs_advance (runs_advance hmore trivial (by decide)) trivial (by decide))
      trivial (by decide)
  · intro h
    exact absurd (h.settled hquiet) (by decide)

end Runs

end Uvent.Net.Forwarding
