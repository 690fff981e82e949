import Uvent.Queue.RecycledInUse
import Uvent.Queue.SizeCalls

/-!
# A segment recycled under `size`

A consumer has taken all of the first segment when a thread calls `size`, and retires it before
`size` has read it.  The thread has the segment in a slot since an earlier call.  A scan finds it
there, unless pointers of other queues fill the other slots: then it is the turn of this slot
again, and the second `protect` of the call overwrites it.
-/

namespace Uvent.Queue.Sizing

open Uvent.Lib
open Uvent.Reclaim
open Uvent.Reclaim.Hazard (goto_pc goto_tls goto_goto)
open Uvent.Queue.Recycling (Reached taken within_collect within_misses within_clear
  guarded_of_quiet)

variable {α : Type} {size : Nat} {s s' : State α} {q : Recycling.State α} {d : Hazard.State}
  {t r p : Nat} {e : Hazard.Event} {ok : State α → Nat → Hazard.Event → Prop}

/-! ### Other users' pointers -/

def Low (d : Hazard.State) (r p : Nat) : Prop :=
  ∀ i x, (d.record r).hp i = some x → x = 0 ∨ 100 ≤ x ∧ x < p

def borrow (d : Hazard.State) (t r p : Nat) : Hazard.State :=
  ((({ d with src := Function.update d.src 2 (some p) }).publish r p).returnSlot r
    (d.record r).victim (d.gen p)).goto t .idle

def borrows (d : Hazard.State) (t r : Nat) : Nat → Nat → Hazard.State
  | _, 0 => d
  | p, n + 1 => borrows (borrow d t r p) t r (p + 1) n

theorem low_first (h : (d.record r).hp = Function.update (fun _ => none) 0 (some 0)) :
    Low d r 100 := by
  intro i x hx
  rw [h] at hx
  by_cases hi : i = 0
  · rw [hi, Function.update_self] at hx
    exact Or.inl (Option.some.inj hx).symm
  · rw [Function.update_of_ne hi] at hx
    cases hx

theorem low_borrow (h : Low d r p) (hp : 100 ≤ p) : Low (borrow d t r p) r (p + 1) := by
  intro i x hx
  have hhp : (Function.update (Function.update d.record r _) r _ r : Hazard.Record).hp i = some x :=
    hx
  rw [Function.update_self] at hhp
  change (Function.update d.record r _ r : Hazard.Record).hp i = some x at hhp
  rw [Function.update_self] at hhp
  change Function.update (d.record r).hp (d.record r).victim (some p) i = some x at hhp
  by_cases hi : i = (d.record r).victim
  · rw [hi, Function.update_self] at hhp
    have hxp := Option.some.inj hhp
    omega
  · rw [Function.update_of_ne hi] at hhp
    have hlow := h i x hhp
    omega

theorem borrow_thread (d : Hazard.State) (t r p : Nat) :
    ((borrow d t r p).thread t).pc = .idle ∧ ((borrow d t r p).thread t).tls = (d.thread t).tls :=
  ⟨goto_pc .., goto_tls ..⟩

theorem reached_borrow (h : Reached size (fun _ _ _ => True) q) (hpc : q.pc t = .idle)
    (hidle : (q.domain.thread t).pc = .idle) (hbound : (q.domain.thread t).tls = some r)
    (hlow : Low q.domain r p) (hp : 100 ≤ p) :
    Reached size (fun _ _ _ => True) { q with domain := borrow q.domain t r p } := by
  -- the pointer is stored and loaded
  have h₁ := h.go (.client (.store 2 (some p)) _ hpc (Nat.le_refl 2) (.store t 2 (some p)))
  generalize hd :
    ({ q.domain with src := Function.update q.domain.src 2 (some p) } : Hazard.State) = d at h₁
  have hthread : d.thread = q.domain.thread := by rw [← hd]
  have hrecord : d.record = q.domain.record := by rw [← hd]
  have hgen : d.gen = q.domain.gen := by rw [← hd]
  have hsrc : d.src 2 = some p := by
    rw [← hd]
    change Function.update q.domain.src 2 (some p) 2 = some p
    rw [Function.update_self]
  rw [← hthread] at hidle hbound
  have h₂ := h₁.client hpc (.protect t r 2 hidle hbound)
  have hafter : Hazard.afterLoad (d.goto t (.protectLoad 2)) 2 = .protectCheck 2 p (d.gen p) 0 := by
    unfold Hazard.afterLoad
    rw [show (d.goto t (.protectLoad 2)).src 2 = some p from hsrc]
    rfl
  have h₃ := h₂.step (.client (.load 2) _ hpc trivial (.protectLoad t 2 (goto_pc ..))) trivial
  rw [hafter] at h₃
  dsimp only at h₃
  rw [goto_goto] at h₃
  -- it is in no slot
  have hmiss : ∀ i, (d.record r).hp i ≠ some p := by
    intro i hi
    rw [hrecord] at hi
    have hrange := hlow i p hi
    omega
  have hmisses := within_misses Hazard.kSlots (goto_pc d t (.protectCheck 2 p (d.gen p) 0))
    ((goto_tls ..).trans hbound) (Nat.zero_add _) hmiss
  rw [goto_goto] at hmisses
  have h₄ := hmisses.client h₃ hpc
  -- it is published, and the pointer has not changed
  have h₅ := h₄.client hpc (.protectPublish t r 2 p (goto_pc ..) ((goto_tls ..).trans hbound))
  have hpublished : Reached size (fun _ _ _ => True)
      { q with domain := (d.publish r p).goto t (.protectValidate 2 p (d.record r).victim) } := by
    rw [← goto_goto (d.publish r p) t (.protectPublish 2 p)]
    exact h₅
  have h₆ := hpublished.step (.client (.load 2) _ hpc trivial
    (.protectValidate t r 2 p _ (goto_pc ..) ((goto_tls ..).trans hbound) hsrc)) trivial
  have hreturned : Reached size (fun _ _ _ => True)
      { q with
        domain := ((d.publish r p).returnSlot r (d.record r).victim (d.gen p)).goto t
          (.done (some p)) } := by
    rw [← goto_goto _ t (.protectValidate 2 p (d.record r).victim)]
    exact h₆
  have h₇ := hreturned.client hpc (.protectReturn t (some p) (goto_pc ..))
  rw [goto_goto, ← hd] at h₇
  exact h₇

theorem reached_borrows (n : Nat) (h : Reached size (fun _ _ _ => True) q) (hpc : q.pc t = .idle)
    (hidle : (q.domain.thread t).pc = .idle) (hbound : (q.domain.thread t).tls = some r)
    (hlow : Low q.domain r p) (hp : 100 ≤ p) :
    Reached size (fun _ _ _ => True) { q with domain := borrows q.domain t r p n } ∧
      Low (borrows q.domain t r p n) r (p + n) := by
  induction n generalizing q p with
  | zero => exact ⟨h, hlow⟩
  | succ n ih =>
      have hnext := ih (reached_borrow h hpc hidle hbound hlow hp) hpc
        (borrow_thread q.domain t r p).1 ((borrow_thread q.domain t r p).2.trans hbound)
        (low_borrow hlow hp) (by omega)
      rw [Nat.add_assoc, Nat.add_comm 1 n] at hnext
      exact hnext

/-! ### Runs with calls of `size` -/

class Tolerant (ok : State α → Nat → Hazard.Event → Prop) : Prop where
  of_sparing : ∀ {s t e}, Sparing s t e → ok s t e

instance tolerant_sparing : Tolerant (Sparing (α := α)) := ⟨id⟩

instance tolerant_true : Tolerant fun (_ : State α) _ _ => True := ⟨fun _ => trivial⟩

abbrev Met (size : Nat) (ok : State α → Nat → Hazard.Event → Prop) (s : State α) : Prop :=
  Runs size ok s

/-- Outside the publication of the second `protect` every slot is spared. -/
theorem spares_of (h : (∀ k, s.pc t ≠ .protectTail k) ∨
    ∀ a p, (s.queue.domain.thread t).pc ≠ .protectPublish a p) : Spares s t := by
  intro k r a p hpc _ hpublish
  rcases h with h | h
  · exact absurd hpc (h k)
  · exact absurd hpublish (h a p)

theorem Met.step (h : Met size ok s) (hstep : Step size s t e s') (meets : ok s t e) :
    Met size ok s' := ThreadRuns.step h hstep meets

theorem Met.go [hok : Tolerant ok] (h : Met size ok s) (hstep : Step size s t e s')
    (he : ∀ a, e ≠ .load (a + 1) := by nofun)
    (hspares : Spares s t := by exact spares_of (.inl nofun)) :
    Met size ok s' :=
  h.step hstep (hok.of_sparing ⟨fun a hload => absurd hload (he a), hspares⟩)

theorem met_of_reached {okq : Recycling.State α → Nat → Hazard.Event → Prop}
    (h : Reached size okq q)
    (hok : ∀ {q t e}, okq q t e → ok { (State.new : State α) with queue := q } t e) :
    Met size ok { (State.new : State α) with queue := q } := by
  refine LabelledRuns.holds (I := fun q => Met size ok { (State.new : State α) with queue := q }) h
    (fun hs => hs ▸ .start rfl) fun _ ih hstep meets => ?_
  exact ThreadRuns.step ih (.queue _ _ rfl hstep) (hok meets)

theorem Met.queue [Tolerant ok] {q : Recycling.State α} {e : Hazard.Event} (h : Met size ok s)
    (hstep : Recycling.Step size s.queue t e q) (hout : s.pc t = .out)
    (he : ∀ a, e ≠ .load (a + 1) := by nofun) : Met size ok { s with queue := q } :=
  h.go (.queue e q hout hstep) he (spares_of (.inl fun k => by rw [hout]; nofun))

theorem Met.client [Tolerant ok] (h : Met size ok s)
    (hstep : Hazard.Step s.queue.domain t .other d) (hout : s.pc t = .out)
    (hpc : s.queue.pc t = .idle) : Met size ok (s.setDomain d) :=
  h.queue (.client .other d hpc trivial hstep) hout

theorem Met.clients [Tolerant ok] (h : Met size ok s) (hw : Recycling.Within t s.queue.domain d)
    (hout : s.pc t = .out) (hpc : s.queue.pc t = .idle) : Met size ok (s.setDomain d) := by
  induction hw with
  | refl => exact h
  | tail _ hstep ih => exact ih.client hstep.1 hout hpc

theorem Met.misses [Tolerant ok] {a g : Nat} (n : Nat) {i : Nat} (h : Met size ok s)
    (hbusy : source (s.pc t) ≠ none) (hpc : (s.queue.domain.thread t).pc = .protectCheck a p g i)
    (hbound : (s.queue.domain.thread t).tls = some r) (hn : i + n = Hazard.kSlots)
    (hmiss : ∀ i, (s.queue.domain.record r).hp i ≠ some p) :
    Met size ok (s.setDomain (s.queue.domain.goto t (.protectPublish a p))) := by
  induction n generalizing s i with
  | zero =>
      obtain rfl : i = Hazard.kSlots := hn
      exact h.go (.inside .other _ hbusy (by rw [hpc]; nofun) (by rw [hpc]; nofun)
        (fun _ _ => nofun) (.protectFull t a p g hpc)) nofun (spares_of (.inr (by rw [hpc]; nofun)))
  | succ n ih =>
      have hlt : i < Hazard.kSlots := by omega
      have hnext : Met size ok (s.setDomain (s.queue.domain.goto t (.protectCheck a p g (i + 1)))) :=
        h.go (.inside .other _ hbusy (by rw [hpc]; nofun) (by rw [hpc]; nofun) (fun _ _ => nofun)
          (.protectMiss t r a p g i hpc hbound hlt (hmiss i))) nofun
          (spares_of (.inr (by rw [hpc]; nofun)))
      have hrest := ih hnext hbusy (goto_pc ..) ((goto_tls ..).trans hbound) (by omega) hmiss
      dsimp only [State.setDomain] at hrest
      rw [goto_goto] at hrest
      exact hrest

theorem retired_kept : ∃ s : State Nat, Runs 2 Sparing s ∧ s.pc 1 = .loadDeq 0 1 ∧
    s.queue.queue.head = 1 ∧ s.queue.domain.orphans = [s.queue.segment 0] ∧
      s.queue.domain.deleted = [] := by
  -- it is the turn of another slot, and `size` keeps the head segment
  have m₀ : Met 2 Sparing _ :=
    met_of_reached taken.2 fun hok => ⟨hok, spares_of (.inl fun _ => nofun)⟩
  have m₁ := (m₀.go (.call (t := 1) rfl rfl rfl)).go (.protect (t := 1) 0 1 rfl rfl rfl)
  have m₂ := ((m₁.go (.inside (t := 1) (.load 0) _ nofun nofun (fun _ => nofun)
    (fun _ _ => nofun) (.protectLoad 1 0 rfl))).go (.inside (t := 1) .other _ nofun nofun
    (fun _ => nofun) (fun _ _ => nofun) (.protectHit 1 1 0 0 0 0 rfl rfl (by decide) rfl))).go
    (.obtainedHead (t := 1) 0 rfl rfl)
  have m₃ := (m₂.go (.protect (t := 1) 1 1 rfl rfl rfl) nofun (spares_of (.inr nofun))).step
    (.inside (t := 1) (.load 1) _ nofun nofun (fun _ => nofun) (fun _ _ => nofun)
      (.protectLoad 1 1 rfl))
    ⟨guarded_of_quiet (by rintro (_ | _ | t) <;> rfl), spares_of (.inr nofun)⟩
  have m₄ := m₃.misses (t := 1) (r := 1) (a := 1) (p := 1) (g := 0) Hazard.kSlots (i := 0) nofun
    rfl rfl rfl (fun | 0 | _ + 1 => nofun)
  have m₅ := m₄.go (.inside (t := 1) .other _ nofun nofun (fun _ => nofun) (fun _ _ => nofun)
    (.protectPublish 1 1 1 1 rfl rfl)) nofun (by
      rintro k r a p hpc hr -
      cases hpc
      cases hr
      nofun)
  have m₆ := (m₅.step (.inside (t := 1) (.load 1) _ nofun nofun (fun _ => nofun)
    (fun _ _ => nofun) (.protectValidate 1 1 1 1 1 rfl rfl rfl))
    ⟨guarded_of_quiet (by rintro (_ | _ | t) <;> rfl), spares_of (.inr nofun)⟩).go
    (.obtainedTail (t := 1) 0 1 rfl rfl) nofun (spares_of (.inr nofun))
  -- the consumer moves `head_` and retires the segment
  have m₇ := (m₆.queue (t := 0) (.swingHead none 0 rfl rfl) rfl).queue (t := 0)
    (.retire 0 0 rfl rfl rfl rfl) rfl
  have m₈ := (m₇.queue (t := 0) (.inside .other _ nofun nofun (fun _ => nofun)
    (fun _ _ => nofun) (.retireCount 0 0 rfl rfl)) rfl).queue (t := 0)
    (.protect 0 0 rfl rfl rfl rfl) rfl
  have m₉ := ((m₈.queue (t := 0) (.inside (.load 0) _ nofun nofun (fun _ => nofun)
    (fun _ _ => nofun) (.protectLoad 0 0 rfl)) rfl).queue (t := 0) (.inside .other _ nofun nofun
    (fun _ => nofun) (fun _ _ => nofun) (.protectMiss 0 0 0 1 0 0 rfl rfl (by decide) nofun))
    rfl).queue (t := 0) (.inside .other _ nofun nofun (fun _ => nofun) (fun _ _ => nofun)
    (.protectHit 0 0 0 1 0 1 rfl rfl (by decide) rfl)) rfl
  have m₁₀ := (((((m₉.queue (t := 0) (.obtained 0 1 rfl rfl) rfl).queue (t := 0)
    (.run false 1 rfl rfl) rfl).queue (t := 0) (.run false 1 rfl rfl) rfl).queue (t := 0)
    (.run false 1 rfl rfl) rfl).queue (t := 0) (.run false 1 rfl rfl) rfl).queue (t := 0)
    (.run false 1 rfl rfl) rfl
  -- the consumer ends, and its segment is with the orphans
  have m₁₁ := (m₁₀.client (.release 0 0 rfl rfl) rfl rfl).clients (t := 0)
    (within_collect [1, 0] rfl) rfl rfl
  have m₁₂ := ((((m₁₁.client (.siftKeep 0 0 .own true _ ⟨0, 0⟩ [] [] rfl rfl rfl (by decide)) rfl
    rfl).client (.siftEnd 0 0 .own true _ [⟨0, 0⟩] rfl rfl rfl) rfl rfl).client
    (.tryLock 0 true rfl rfl) rfl rfl).client (.unlock 0 true rfl) rfl rfl).client
    (.releaseOrphans 0 0 rfl rfl nofun rfl) rfl rfl
  have m₁₃ := (m₁₂.clients (t := 0)
    (within_clear (r := 0) Hazard.kSlots rfl rfl (Nat.zero_add _)) rfl rfl).client
    (.releaseRecord 0 0 rfl rfl) rfl rfl
  -- another thread takes its record and scans
  have m₁₄ := (((m₁₃.client (.acquire 2 rfl rfl) rfl rfl).client (.acquireLook 2 _ _ rfl) rfl
    rfl).client (.acquireLook 2 _ _ rfl) rfl rfl).client (.acquireTake 2 0 [] rfl rfl) rfl rfl
  have m₁₅ := (((m₁₄.client (.scan 2 0 rfl rfl) rfl rfl).clients (t := 2)
    (within_collect [1, 0] rfl) rfl rfl).client (.siftEnd 2 0 .own false _ [] rfl rfl rfl) rfl
    rfl).client (.tryLock 2 false rfl rfl) rfl rfl
  have m₁₆ := (((m₁₅.clients (t := 2) (within_collect [1, 0] rfl) rfl rfl).client
    (.siftKeep 2 0 .orphans false _ ⟨0, 0⟩ [] [] rfl rfl rfl (by decide)) rfl rfl).client
    (.siftEnd 2 0 .orphans false _ [⟨0, 0⟩] rfl rfl rfl) rfl rfl).client
    (.unlock 2 false rfl) rfl rfl
  exact ⟨_, m₁₆, rfl, rfl, rfl, rfl⟩

theorem retired_deleted : ∃ s : State Nat, Runs 2 (fun _ _ _ => True) s ∧
    s.pc 1 = .loadDeq 0 1 ∧ s.queue.segment 0 ∈ s.queue.domain.deleted := by
  -- seven pointers of other users
  obtain ⟨h₁₈, hlow⟩ := reached_borrows 7 taken.2.relax (t := 1) (r := 1) rfl rfl rfl (low_first rfl)
    (by decide)
  -- `size` finds the head segment in slot 0, and overwrites it
  have m₀ : Met 2 (fun _ _ _ => True) _ := met_of_reached h₁₈ id
  have m₁ := (m₀.go (.call (t := 1) rfl rfl rfl)).go (.protect (t := 1) 0 1 rfl rfl rfl)
  have m₂ := ((m₁.go (.inside (t := 1) (.load 0) _ nofun nofun (fun _ => nofun) (fun _ _ => nofun)
    (.protectLoad 1 0 rfl))).go (.inside (t := 1) .other _ nofun nofun (fun _ => nofun)
    (fun _ _ => nofun) (.protectHit 1 1 0 0 0 0 rfl rfl (by decide) rfl))).go
    (.obtainedHead (t := 1) 0 rfl rfl)
  have m₃ := (m₂.go (.protect (t := 1) 1 1 rfl rfl rfl) nofun (spares_of (.inr nofun))).step
    (.inside (t := 1) (.load 1) _ nofun nofun (fun _ => nofun) (fun _ _ => nofun)
      (.protectLoad 1 1 rfl)) trivial
  have m₄ := m₃.misses (t := 1) (r := 1) (a := 1) (p := 1) (g := 0) Hazard.kSlots (i := 0) nofun
    rfl rfl rfl fun i hi => by
      have hrange := hlow i 1 hi
      omega
  have m₅ := ((m₄.step (.inside (t := 1) .other _ nofun nofun (fun _ => nofun) (fun _ _ => nofun)
    (.protectPublish 1 1 1 1 rfl rfl)) trivial).step (.inside (t := 1) (.load 1) _ nofun nofun
    (fun _ => nofun) (fun _ _ => nofun) (.protectValidate 1 1 1 1 0 rfl rfl rfl)) trivial).go
    (.obtainedTail (t := 1) 0 1 rfl rfl) nofun (spares_of (.inr nofun))
  -- the consumer moves `head_` and retires the segment
  have m₆ := (m₅.queue (t := 0) (.swingHead none 0 rfl rfl) rfl).queue (t := 0)
    (.retire 0 0 rfl rfl rfl rfl) rfl
  have m₇ := (m₆.queue (t := 0) (.inside .other _ nofun nofun (fun _ => nofun)
    (fun _ _ => nofun) (.retireCount 0 0 rfl rfl)) rfl).queue (t := 0)
    (.protect 0 0 rfl rfl rfl rfl) rfl
  have m₈ := ((m₇.queue (t := 0) (.inside (.load 0) _ nofun nofun (fun _ => nofun)
    (fun _ _ => nofun) (.protectLoad 0 0 rfl)) rfl).queue (t := 0) (.inside .other _ nofun nofun
    (fun _ => nofun) (fun _ _ => nofun) (.protectMiss 0 0 0 1 0 0 rfl rfl (by decide) nofun))
    rfl).queue (t := 0) (.inside .other _ nofun nofun (fun _ => nofun) (fun _ _ => nofun)
    (.protectHit 0 0 0 1 0 1 rfl rfl (by decide) rfl)) rfl
  have m₉ := (((((m₈.queue (t := 0) (.obtained 0 1 rfl rfl) rfl).queue (t := 0)
    (.run false 1 rfl rfl) rfl).queue (t := 0) (.run false 1 rfl rfl) rfl).queue (t := 0)
    (.run false 1 rfl rfl) rfl).queue (t := 0) (.run false 1 rfl rfl) rfl).queue (t := 0)
    (.run false 1 rfl rfl) rfl
  -- the consumer ends, and its segment is with the orphans
  have m₁₀ := (m₉.client (.release 0 0 rfl rfl) rfl rfl).clients (t := 0)
    (within_collect [1, 0] rfl) rfl rfl
  have m₁₁ := ((((m₁₀.client (.siftKeep 0 0 .own true _ ⟨0, 0⟩ [] [] rfl rfl rfl (by decide)) rfl
    rfl).client (.siftEnd 0 0 .own true _ [⟨0, 0⟩] rfl rfl rfl) rfl rfl).client
    (.tryLock 0 true rfl rfl) rfl rfl).client (.unlock 0 true rfl) rfl rfl).client
    (.releaseOrphans 0 0 rfl rfl nofun rfl) rfl rfl
  have m₁₂ := (m₁₁.clients (t := 0)
    (within_clear (r := 0) Hazard.kSlots rfl rfl (Nat.zero_add _)) rfl rfl).client
    (.releaseRecord 0 0 rfl rfl) rfl rfl
  -- another thread takes its record and scans
  have m₁₃ := (((m₁₂.client (.acquire 2 rfl rfl) rfl rfl).client (.acquireLook 2 _ _ rfl) rfl
    rfl).client (.acquireLook 2 _ _ rfl) rfl rfl).client (.acquireTake 2 0 [] rfl rfl) rfl rfl
  have m₁₄ := (((m₁₃.client (.scan 2 0 rfl rfl) rfl rfl).clients (t := 2)
    (within_collect [1, 0] rfl) rfl rfl).client (.siftEnd 2 0 .own false _ [] rfl rfl rfl) rfl
    rfl).client (.tryLock 2 false rfl rfl) rfl rfl
  have m₁₅ := (m₁₄.clients (t := 2) (within_collect [1, 0] rfl) rfl rfl).client
    (.siftDelete 2 0 .orphans false _ ⟨0, 0⟩ [] [] rfl rfl rfl (by decide)) rfl rfl
  exact ⟨_, m₁₅, rfl, List.mem_cons_self⟩

/-- When it is the turn of the slot of the head segment, `size` is about to read a segment that
was handed to its deleter. -/
theorem size_not_safe : ¬∀ s : State Nat, Runs 2 (fun _ _ _ => True) s → Safe s := by
  intro hsafe
  obtain ⟨s, hruns, hpc, hdeleted⟩ := retired_deleted
  refine (hsafe s hruns).read 1 0 ?_ hdeleted
  rw [hpc]
  exact List.mem_cons_self

theorem kept_under_size :
    ∃ s : State Nat, Safe s ∧ s.pc 1 = .loadDeq 0 1 ∧ s.queue.queue.head = 1 ∧
      s.queue.domain.orphans = [s.queue.segment 0] ∧ s.queue.domain.deleted = [] := by
  obtain ⟨s, hruns, hkept⟩ := retired_kept
  exact ⟨s, safe_of_sparingRuns hruns, hkept⟩

end Uvent.Queue.Sizing
