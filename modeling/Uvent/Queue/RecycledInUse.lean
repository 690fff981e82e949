import Uvent.Queue.RecyclingRuns
import Mathlib.Logic.Relation

/-!
# A segment recycled in use

A consumer retires the first segment while `tail_` still points to it, and ends.  A scan keeps the
segment when a second producer protects it before its slots are read.  Otherwise the scan may reach
the slots of the first producer after this one has moved `tail_` and ended; it then finds the
segment nowhere.
-/

namespace Uvent.Queue.Recycling

open Uvent.Queue.Segmented
open Uvent.Lib
open Uvent.Reclaim
open Uvent.Reclaim.Hazard (goto_pc goto_tls goto_goto goto_self)

variable {α : Type} {size : Nat} {ok : State α → Nat → Hazard.Event → Prop} {s s' : State α}
  {d d' : Hazard.State} {t r : Nat} {e : Hazard.Event}

def Within (t : Nat) : Hazard.State → Hazard.State → Prop :=
  Relation.ReflTransGen fun d d' => Hazard.Step d t .other d' ∧ (d.thread t).pc ≠ .idle ∧
    ∀ res, (d.thread t).pc ≠ .done res

class Lenient (ok : State α → Nat → Hazard.Event → Prop) : Prop where
  of_guarded : ∀ {s t e}, Guarded s t e → ok s t e

instance lenient_guarded : Lenient (Guarded (α := α)) := ⟨id⟩

instance lenient_true : Lenient fun (_ : State α) _ _ => True := ⟨fun _ => trivial⟩

abbrev Reached (size : Nat) (ok : State α → Nat → Hazard.Event → Prop) (s : State α) : Prop :=
  Runs size ok s

theorem Reached.step (h : Reached size ok s) (hstep : Step size s t e s') (meets : ok s t e) :
    Reached size ok s' := ThreadRuns.step h hstep meets

theorem Reached.go [hok : Lenient ok] (h : Reached size ok s) (hstep : Step size s t e s')
    (he : ∀ a, e ≠ .load (a + 1) := by intro _ h; cases h) : Reached size ok s' :=
  h.step hstep (hok.of_guarded fun a hload => absurd hload (he a))

theorem Reached.relax (h : Reached size ok s) : Reached size (fun _ _ _ => True) s :=
  h.mono fun _ _ _ => trivial

theorem Within.client [Lenient ok] (hw : Within t s.domain d) (h : Reached size ok s)
    (hpc : s.pc t = .idle) : Reached size ok { s with domain := d } := by
  induction hw with
  | refl => exact h
  | tail _ hstep ih => exact ih.go (.client .other _ hpc trivial hstep.1)

theorem Within.inside [Lenient ok] (hw : Within t s.domain d) (h : Reached size ok s)
    (hpc : s.pc t ≠ .idle) : Reached size ok { s with domain := d } := by
  induction hw with
  | refl => exact h
  | tail _ hstep ih =>
      exact ih.go (.inside .other _ hpc hstep.2.1 hstep.2.2 (fun _ _ => nofun) hstep.1)

theorem Within.before {pc pc' : Hazard.Pc} (hstep : Hazard.Step d t .other (d.goto t pc))
    (hpc : (d.thread t).pc ≠ .idle) (hdone : ∀ res, (d.thread t).pc ≠ .done res)
    (hw : Within t (d.goto t pc) ((d.goto t pc).goto t pc')) : Within t d (d.goto t pc') := by
  rw [goto_goto] at hw
  exact .head ⟨hstep, hpc, hdone⟩ hw

def gather (hp : Nat → Option Nat) (i : Nat) : Nat → List Nat → List Nat
  | 0, hz => hz
  | n + 1, hz => gather hp (i + 1) n ((hp i).toList ++ hz)

theorem within_slots {which : Hazard.Which} {leaving : Bool} {rest : List Nat} (n : Nat) {i : Nat}
    {hz : List Nat} (hpc : (d.thread t).pc = .collectSlot which leaving hz r i rest)
    (hn : i + n = Hazard.kSlots) :
    Within t d (d.goto t (.collect which leaving (gather (d.record r).hp i n hz) rest)) := by
  induction n generalizing d i hz with
  | zero =>
      obtain rfl : i = Hazard.kSlots := hn
      exact .single ⟨.collectNext t r which leaving hz rest hpc, by rw [hpc]; nofun, by rw [hpc]; nofun⟩
  | succ n ih =>
      have hlt : i < Hazard.kSlots := by omega
      refine Within.before (.collectSlot t r i which leaving hz rest hpc hlt) (by rw [hpc]; nofun)
        (by rw [hpc]; nofun) ?_
      exact ih (goto_pc ..) (by omega)

def hazards (record : Nat → Hazard.Record) : List Nat → List Nat → List Nat
  | [], hz => hz
  | r :: rest, hz =>
      hazards record rest
        (if (record r).active then gather (record r).hp 0 Hazard.kSlots hz else hz)

theorem within_record {which : Hazard.Which} {leaving : Bool} {hz rest : List Nat}
    (hpc : (d.thread t).pc = .collect which leaving hz (r :: rest)) :
    Within t d (d.goto t (.collect which leaving
      (if (d.record r).active then gather (d.record r).hp 0 Hazard.kSlots hz else hz) rest)) := by
  have hstep := Hazard.Step.collect t r which leaving hz rest hpc
  have hidle : (d.thread t).pc ≠ .idle := by rw [hpc]; nofun
  have hdone : ∀ res, (d.thread t).pc ≠ .done res := by rw [hpc]; nofun
  by_cases hactive : (d.record r).active = true
  · rw [if_pos hactive] at hstep ⊢
    exact Within.before hstep hidle hdone (within_slots Hazard.kSlots (goto_pc ..) (Nat.zero_add _))
  · rw [if_neg hactive] at hstep ⊢
    exact .single ⟨hstep, hidle, hdone⟩

theorem within_collect {which : Hazard.Which} {leaving : Bool} {hz : List Nat} (rest : List Nat)
    (hpc : (d.thread t).pc = .collect which leaving hz rest) :
    Within t d (d.goto t (.sift which leaving (hazards d.record rest hz))) := by
  induction rest generalizing d hz with
  | nil =>
      exact .single ⟨.collectEnd t which leaving hz hpc, by rw [hpc]; nofun, by rw [hpc]; nofun⟩
  | cons r rest ih =>
      have hrest := ih (goto_pc d t (.collect which leaving
        (if (d.record r).active then gather (d.record r).hp 0 Hazard.kSlots hz else hz) rest))
      rw [goto_goto] at hrest
      exact (within_record hpc).trans hrest

theorem within_misses {a p g : Nat} (n : Nat) {i : Nat}
    (hpc : (d.thread t).pc = .protectCheck a p g i) (hbound : (d.thread t).tls = some r)
    (hn : i + n = Hazard.kSlots) (hmiss : ∀ i, (d.record r).hp i ≠ some p) :
    Within t d (d.goto t (.protectPublish a p)) := by
  induction n generalizing d i with
  | zero =>
      obtain rfl : i = Hazard.kSlots := hn
      exact .single ⟨.protectFull t a p g hpc, by rw [hpc]; nofun, by rw [hpc]; nofun⟩
  | succ n ih =>
      have hlt : i < Hazard.kSlots := by omega
      refine Within.before (.protectMiss t r a p g i hpc hbound hlt (hmiss i)) (by rw [hpc]; nofun)
        (by rw [hpc]; nofun) ?_
      exact ih (goto_pc ..) ((goto_tls ..).trans hbound) (by omega) hmiss

def clearSlots (d : Hazard.State) (r i : Nat) : Nat → Hazard.State
  | 0 => d
  | n + 1 => clearSlots (d.setSlot r i none) r (i + 1) n

theorem clearSlots_goto (n : Nat) (d : Hazard.State) (t r i : Nat) (pc : Hazard.Pc) :
    clearSlots (d.goto t pc) r i n = (clearSlots d r i n).goto t pc := by
  induction n generalizing d i with
  | zero => rfl
  | succ n ih => exact ih (d.setSlot r i none) (i + 1)

theorem within_clear (n : Nat) {i : Nat} (hpc : (d.thread t).pc = .releaseSlots i)
    (hbound : (d.thread t).tls = some r) (hn : i + n = Hazard.kSlots) :
    Within t d ((clearSlots d r i n).goto t (.releaseSlots Hazard.kSlots)) := by
  induction n generalizing d i with
  | zero =>
      obtain rfl : i = Hazard.kSlots := hn
      rw [show (clearSlots d r Hazard.kSlots 0).goto t (.releaseSlots Hazard.kSlots) = d from
        goto_self hpc]
      exact .refl
  | succ n ih =>
      have hlt : i < Hazard.kSlots := by omega
      have hrest := ih (d := (d.setSlot r i none).goto t (.releaseSlots (i + 1))) (goto_pc ..)
        ((goto_tls ..).trans hbound) (by omega)
      rw [clearSlots_goto, goto_goto] at hrest
      exact .head ⟨.releaseSlot t r i hpc hbound hlt, by rw [hpc]; nofun, by rw [hpc]; nofun⟩ hrest

def State.target (s : State α) : Nat → Nat
  | 0 => s.queue.head
  | _ => s.queue.tail

theorem inside_load (s : State α) (t a : Nat) (d : Hazard.State) :
    s.inside t (.load a) d =
      { s with domain := d, seen := Function.update s.seen t (s.target a) } := by
  cases a <;> rfl

/-- `protect` from its first load to its return, when the slots do not hold the pointer. -/
theorem Reached.protect [Lenient ok] (h : Reached size ok s) {a p : Nat}
    (ha : source (s.pc t) = some a) (hidle : (s.domain.thread t).pc = .idle)
    (hbound : (s.domain.thread t).tls = some r) (hretired : s.retiring t = none)
    (hp : s.domain.src a = some p) (hmiss : ∀ i, (s.domain.record r).hp i ≠ some p)
    (hload : ok { s with domain := s.domain.goto t (.protectLoad a) } t (.load a))
    (hagain : ok
      { s with
        domain := (s.domain.publish r p).goto t (.protectValidate a p (s.domain.record r).victim),
        seen := Function.update s.seen t (s.target a) } t (.load a)) :
    Reached size ok
      ({ s with
          domain :=
            ((s.domain.publish r p).returnSlot r (s.domain.record r).victim
              (s.domain.gen p)).goto t .idle,
          seen := Function.update s.seen t (s.target a) }.setQueue t
        (obtained s.queue (s.target a) (s.pc t))) := by
  have hbusy : s.pc t ≠ .idle := by
    intro hpc
    rw [hpc] at ha
    cases ha
  have hstart := h.go (.protect a r ha hidle hbound hretired)
  -- the pointer is loaded
  have hafter : Hazard.afterLoad (s.domain.goto t (.protectLoad a)) a =
      .protectCheck a p (s.domain.gen p) 0 := by
    unfold Hazard.afterLoad
    rw [show (s.domain.goto t (.protectLoad a)).src a = some p from hp]
    rfl
  have hpc₁ := goto_pc s.domain t (.protectLoad a)
  have hcheck := hstart.step (.inside (.load a) _ hbusy
    (by rw [hpc₁]; nofun) (by rw [hpc₁]; nofun) (fun _ _ => nofun) (.protectLoad t a hpc₁)) hload
  rw [inside_load, hafter] at hcheck
  dsimp only at hcheck
  rw [goto_goto] at hcheck
  -- it is in no slot
  have hpc₂ := goto_pc s.domain t (.protectCheck a p (s.domain.gen p) 0)
  have hmisses := within_misses Hazard.kSlots hpc₂ ((goto_tls ..).trans hbound)
    (Nat.zero_add _) hmiss
  rw [goto_goto] at hmisses
  have hpublish := hmisses.inside hcheck hbusy
  -- it is published and still there
  have hpc₃ := goto_pc s.domain t (.protectPublish a p)
  have hvalidate := hpublish.go (.inside .other _ hbusy (by rw [hpc₃]; nofun) (by rw [hpc₃]; nofun)
    (fun _ _ => nofun) (.protectPublish t r a p hpc₃ ((goto_tls ..).trans hbound)))
  have hpublished : Reached size ok
      { s with
        domain := (s.domain.publish r p).goto t
          (.protectValidate a p (s.domain.record r).victim),
        seen := Function.update s.seen t (s.target a) } := by
    rw [← goto_goto (s.domain.publish r p) t (.protectPublish a p)]
    exact hvalidate
  have hpc₄ := goto_pc (s.domain.publish r p) t (.protectValidate a p (s.domain.record r).victim)
  have hreturn := hpublished.step (.inside (.load a) _ hbusy
    (by rw [hpc₄]; nofun) (by rw [hpc₄]; nofun) (fun _ _ => nofun)
    (.protectValidate t r a p _ hpc₄ ((goto_tls ..).trans hbound) hp)) hagain
  rw [inside_load] at hreturn
  have hreturned : Reached size ok
      { s with
        domain :=
          ((s.domain.publish r p).returnSlot r (s.domain.record r).victim
            (s.domain.gen p)).goto t (.done (some p)),
        seen := Function.update s.seen t (s.target a) } := by
    rw [← goto_goto _ t (.protectValidate a p (s.domain.record r).victim),
      ← Function.update_idem (s.target a) (s.target a) s.seen]
    exact hreturn
  have hlast := hreturned.go (.obtained a p ha (goto_pc ..))
  dsimp only at hlast
  rw [goto_goto, Function.update_self] at hlast
  exact hlast

/-- `protect` of `head_`, when the first slot holds the pointer. -/
theorem Reached.protectHit [Lenient ok] (h : Reached size ok s) {p : Nat}
    (ha : source (s.pc t) = some 0) (hidle : (s.domain.thread t).pc = .idle)
    (hbound : (s.domain.thread t).tls = some r) (hretired : s.retiring t = none)
    (hp : s.domain.src 0 = some p) (hhit : (s.domain.record r).hp 0 = some p) :
    Reached size ok
      ({ s with
          domain := (s.domain.returnSlot r 0 (s.domain.gen p)).goto t .idle,
          seen := Function.update s.seen t s.queue.head }.setQueue t
        (obtained s.queue s.queue.head (s.pc t))) := by
  have hbusy : s.pc t ≠ .idle := by
    intro hpc
    rw [hpc] at ha
    cases ha
  have hstart := h.go (.protect 0 r ha hidle hbound hretired)
  have hafter : Hazard.afterLoad (s.domain.goto t (.protectLoad 0)) 0 =
      .protectCheck 0 p (s.domain.gen p) 0 := by
    unfold Hazard.afterLoad
    rw [show (s.domain.goto t (.protectLoad 0)).src 0 = some p from hp]
    rfl
  have hpc₁ := goto_pc s.domain t (.protectLoad 0)
  have hcheck := hstart.go (.inside (.load 0) _ hbusy (by rw [hpc₁]; nofun) (by rw [hpc₁]; nofun)
    (fun _ _ => nofun) (.protectLoad t 0 hpc₁))
  rw [inside_load, hafter] at hcheck
  dsimp only at hcheck
  rw [goto_goto] at hcheck
  have hpc₂ := goto_pc s.domain t (.protectCheck 0 p (s.domain.gen p) 0)
  have hreturn := hcheck.go (.inside .other _ hbusy (by rw [hpc₂]; nofun) (by rw [hpc₂]; nofun)
    (fun _ _ => nofun)
    (.protectHit t r 0 p _ 0 hpc₂ ((goto_tls ..).trans hbound) (by decide) hhit))
  have hreturned : Reached size ok
      { s with
        domain := (s.domain.returnSlot r 0 (s.domain.gen p)).goto t (.done (some p)),
        seen := Function.update s.seen t s.queue.head } := by
    rw [← goto_goto _ t (.protectCheck 0 p (s.domain.gen p) 0)]
    exact hreturn
  have hlast := hreturned.go (.obtained 0 p ha (goto_pc ..))
  dsimp only at hlast
  rw [goto_goto, Function.update_self] at hlast
  exact hlast

theorem covered_goto {p i : Nat} {pc : Hazard.Pc} (hpc : pc.reclaim = none)
    (h : Hazard.Covered d p r i) : Hazard.Covered ((d.publish r p).goto t pc) p r i := by
  intro t' which hz hreclaim hlisted
  have hthread : ((d.publish r p).goto t pc).thread =
      Function.update d.thread t { d.thread t with pc := pc } := rfl
  by_cases ht : t' = t
  · rw [ht, hthread, Function.update_self] at hreclaim
    exact absurd (hpc.symm.trans hreclaim) nofun
  · rw [hthread, Function.update_of_ne ht] at hreclaim ⊢
    exact h t' which hz hreclaim
      (Hazard.listed_same hthread rfl (Hazard.write_boxes rfl rfl rfl rfl rfl) hlisted)

/-- A scan under way has the pointer, or has yet to read the slots of the thread. -/
theorem Reached.protectCovered [hok : Lenient ok] (h : Reached size ok s) {a p : Nat}
    (ha : source (s.pc t) = some a) (hidle : (s.domain.thread t).pc = .idle)
    (hbound : (s.domain.thread t).tls = some r) (hretired : s.retiring t = none)
    (hp : s.domain.src a = some p) (hmiss : ∀ i, (s.domain.record r).hp i ≠ some p)
    (hcovered : ∀ i, Hazard.Covered s.domain p r i) :
    Reached size ok
      ({ s with
          domain :=
            ((s.domain.publish r p).returnSlot r (s.domain.record r).victim
              (s.domain.gen p)).goto t .idle,
          seen := Function.update s.seen t (s.target a) }.setQueue t
        (obtained s.queue (s.target a) (s.pc t))) := by
  refine h.protect ha hidle hbound hretired hp hmiss (hok.of_guarded ?_) (hok.of_guarded ?_)
  · rintro a' hload p' r' i hp' hr' - hheld
    cases hload
    obtain rfl : p = p' := Option.some.inj (hp.symm.trans hp')
    obtain rfl : r = r' := Option.some.inj (((goto_tls ..).trans hbound).symm.trans hr')
    exact absurd hheld (hmiss i)
  · rintro a' hload p' r' i hp' hr' - -
    cases hload
    obtain rfl : p = p' := Option.some.inj (hp.symm.trans hp')
    obtain rfl : r = r' := Option.some.inj (((goto_tls ..).trans hbound).symm.trans hr')
    exact covered_goto rfl (hcovered i)

theorem Reached.client [Lenient ok] (h : Reached size ok s) (hpc : s.pc t = .idle)
    (hstep : Hazard.Step s.domain t .other d) : Reached size ok { s with domain := d } :=
  h.go (.client .other d hpc trivial hstep)

theorem Reached.collect [Lenient ok] (h : Reached size ok s) {which : Hazard.Which}
    {leaving : Bool} {hz : List Nat} (rest : List Nat) (hpc : s.pc t = .idle)
    (hcollect : (s.domain.thread t).pc = .collect which leaving hz rest) :
    Reached size ok
      { s with
        domain := s.domain.goto t (.sift which leaving (hazards s.domain.record rest hz)) } :=
  (within_collect rest hcollect).client h hpc

theorem Reached.look [Lenient ok] (h : Reached size ok s) {which : Hazard.Which} {leaving : Bool}
    {hz rest : List Nat} (hpc : s.pc t = .idle)
    (hcollect : (s.domain.thread t).pc = .collect which leaving hz (r :: rest)) :
    Reached size ok
      { s with
        domain := s.domain.goto t (.collect which leaving
          (if (s.domain.record r).active then
            gather (s.domain.record r).hp 0 Hazard.kSlots hz else hz) rest) } :=
  (within_record hcollect).client h hpc

theorem Reached.clear [Lenient ok] (h : Reached size ok s) (hpc : s.pc t = .idle)
    (hrelease : (s.domain.thread t).pc = .releaseSlots 0)
    (hbound : (s.domain.thread t).tls = some r) :
    Reached size ok
      { s with
        domain := (clearSlots s.domain r 0 Hazard.kSlots).goto t (.releaseSlots Hazard.kSlots) } :=
  (within_clear Hazard.kSlots hrelease hbound (Nat.zero_add _)).client h hpc

/-- A consumer has retired the first segment, from which a producer is about to move `tail_`,
and ended, and the scan of another thread has come to the orphans. -/
def scanning : { s : State Nat // Reached 2 Guarded s } := by
  have h₀ : Reached 2 Guarded (State.new : State Nat) := .start rfl
  -- three threads get a record each
  have h₁ := (((h₀.client rfl (.acquire 0 rfl rfl)).client rfl (.acquireNew 0 rfl)).client rfl
    (.acquirePush 0 0 rfl)).client rfl (.acquireCount 0 rfl)
  have h₂ := ((((h₁.client rfl (.acquire 1 rfl rfl)).client rfl
    (.acquireLook 1 _ _ rfl)).client rfl (.acquireNew 1 rfl)).client rfl
    (.acquirePush 1 1 rfl)).client rfl (.acquireCount 1 rfl)
  have h₃ := (((((h₂.client rfl (.acquire 2 rfl rfl)).client rfl
    (.acquireLook 2 _ _ rfl)).client rfl (.acquireLook 2 _ _ rfl)).client rfl
    (.acquireNew 2 rfl)).client rfl (.acquirePush 2 2 rfl)).client rfl (.acquireCount 2 rfl)
  -- a producer fills the segment, links another one and is about to move `tail_`
  have h₄ := (h₃.go (.call (t := 0) (.enqueueBulk [10, 11, 12]) rfl rfl)).protectCovered (t := 0)
    (r := 0) (a := 1) (p := 0) rfl rfl rfl rfl rfl (fun _ h => by cases h)
    fun _ => Hazard.covered_of_quiet (by rintro (_ | _ | _ | t) <;> rfl)
  have h₅ := (((h₄.go (.run (t := 0) false 0 rfl rfl)).go (.run (t := 0) false 0 rfl rfl)).go
    (.run (t := 0) false 0 rfl rfl)).go (.run (t := 0) false 0 rfl rfl)
  have h₆ := h₅.go (.take (t := 0) false 0 0 [12] 1 rfl (Nat.le_refl 0) (by
    rintro (⟨k, -, hk⟩ | ⟨t, ht⟩)
    · cases hk
    · cases ht) rfl)
  have h₇ := h₆.go (.link (t := 0) false 0 0 _ [12] 1 rfl rfl rfl)
  -- a consumer takes both elements, moves `head_` and retires the segment
  have h₈ := (h₇.go (.call (t := 1) (.tryDequeueBulk 2) rfl rfl)).protectCovered (t := 1) (r := 1)
    (a := 0) (p := 0) rfl rfl rfl rfl rfl (fun _ h => by cases h)
    fun _ => Hazard.covered_of_quiet (by rintro (_ | _ | _ | t) <;> rfl)
  have h₉ := ((((h₈.go (.run (t := 1) false 0 rfl rfl)).go (.run (t := 1) false 0 rfl rfl)).go
    (.run (t := 1) false 0 rfl rfl)).go (.run (t := 1) false 0 rfl rfl)).go
    (.run (t := 1) false 0 rfl rfl)
  have h₁₀ := (((h₉.go (.run (t := 1) false 0 rfl rfl)).go (.run (t := 1) false 0 rfl rfl)).go
    (.run (t := 1) false 0 rfl rfl)).go (.run (t := 1) false 0 rfl rfl)
  have h₁₁ := h₁₀.go (.call (t := 1) .tryDequeue rfl rfl)
  have h₁₂ := h₁₁.protectHit (t := 1) (r := 1) (p := 0) rfl rfl rfl rfl rfl rfl
  have h₁₃ := (((h₁₂.go (.run (t := 1) false 0 rfl rfl)).go (.run (t := 1) false 0 rfl rfl)).go
    (.swingHead (t := 1) none 0 rfl rfl)).go (.retire (t := 1) 0 1 rfl rfl rfl rfl)
  have h₁₄ := (h₁₃.go (.inside (t := 1) .other _ (fun h => by cases h) (fun h => by cases h)
    (fun _ h => by cases h) (fun _ _ h => by cases h) (.retireCount 1 1 rfl rfl))).protectCovered
    (t := 1) (r := 1) (a := 0) (p := 1) rfl rfl rfl rfl rfl (fun i h => by cases i <;> cases h)
    fun _ => Hazard.covered_of_quiet (by rintro (_ | _ | _ | t) <;> rfl)
  have h₁₅ := ((h₁₄.go (.run (t := 1) false 1 rfl rfl)).go (.run (t := 1) false 1 rfl rfl)).go
    (.run (t := 1) false 1 rfl rfl)
  -- the consumer ends, and its segment is with the orphans
  have h₁₆ := (h₁₅.client rfl (.release 1 1 rfl rfl)).collect (t := 1) [2, 1, 0] rfl rfl
  have h₁₇ := (((h₁₆.client rfl (.siftKeep 1 1 .own true _ ⟨0, 0⟩ [] [] rfl rfl rfl
    (by decide))).client rfl (.siftEnd 1 1 .own true _ [⟨0, 0⟩] rfl rfl rfl)).client rfl
    (.tryLock 1 true rfl rfl)).client rfl (.unlock 1 true rfl)
  have h₁₈ := ((h₁₇.client rfl (.releaseOrphans 1 1 rfl rfl (fun h => by cases h) rfl)).clear
    (t := 1) (r := 1) rfl rfl rfl).client rfl (.releaseRecord 1 1 rfl rfl)
  -- another thread takes its record, and its scan comes to the orphans
  have h₁₉ := (((h₁₈.client rfl (.acquire 3 rfl rfl)).client rfl
    (.acquireLook 3 _ _ rfl)).client rfl (.acquireLook 3 _ _ rfl)).client rfl
    (.acquireTake 3 1 [0] rfl rfl)
  have h₂₀ := (((h₁₉.client rfl (.scan 3 1 rfl rfl)).collect (t := 3) [2, 1, 0] rfl rfl).client rfl
    (.siftEnd 3 1 .own false _ [] rfl rfl rfl)).client rfl (.tryLock 3 false rfl rfl)
  exact ⟨_, h₂₀⟩

theorem retired_kept : ∃ s : State Nat, Runs 2 Guarded s ∧ uses (s.pc 2) = some 0 ∧
    s.queue.head = 1 ∧ s.domain.orphans = [s.segment 0] ∧ s.domain.deleted = [] := by
  -- a producer that was not read yet protects the segment, and the scan finds it
  have h₀ : Reached 2 Guarded scanning.1 := scanning.2
  have h₁ := (h₀.go (.call (t := 2) (.enqueue 13) rfl rfl)).protectCovered (t := 2) (r := 2)
    (a := 1) (p := 0) rfl rfl rfl rfl rfl (fun _ => nofun) (by
      rintro i (_ | _ | _ | _ | t) which hz hreclaim -
      on_goal 4 => exact .inr List.mem_cons_self
      all_goals cases hreclaim)
  have h₂ := (((h₁.collect (t := 3) [2, 1, 0] rfl rfl).client rfl
    (.siftKeep 3 1 .orphans false _ ⟨0, 0⟩ [] [] rfl rfl rfl (by decide))).client rfl
    (.siftEnd 3 1 .orphans false _ [⟨0, 0⟩] rfl rfl rfl)).client rfl (.unlock 3 false rfl)
  exact ⟨_, h₂, rfl, rfl, rfl, rfl⟩

theorem retired_deleted : ∃ s : State Nat, Runs 2 (fun _ _ _ => True) s ∧
    uses (s.pc 2) = some 0 ∧ s.segment 0 ∈ s.domain.deleted := by
  have h₀ : Reached 2 Guarded scanning.1 := scanning.2
  have h₁ := h₀.relax.look (t := 3) (r := 2) rfl rfl
  -- a producer that was read protects the segment that `tail_` still points to
  have h₂ := (h₁.go (.call (t := 2) (.enqueue 13) rfl rfl)).protect (t := 2) (r := 2) (a := 1)
    (p := 0) rfl rfl rfl rfl rfl (fun _ => nofun) trivial trivial
  -- the producer that has linked the second segment moves `tail_` and ends
  have h₃ := (h₂.go (.run (t := 0) false 0 rfl rfl)).protect (t := 0) (r := 0) (a := 1) (p := 1)
    rfl rfl rfl rfl rfl (fun | 0 | _ + 1 => nofun) trivial trivial
  have h₄ := ((h₃.go (.run (t := 0) false 1 rfl rfl)).go (.run (t := 0) false 1 rfl rfl)).go
    (.run (t := 0) false 1 rfl rfl)
  have h₅ := ((h₄.client rfl (.release 0 0 rfl rfl)).collect (t := 0) [2, 1, 0] rfl rfl).client rfl
    (.siftEnd 0 0 .own true _ [] rfl rfl rfl)
  have h₆ := (((h₅.client rfl (.tryLockFail 0 true rfl)).client rfl
    (.releaseNone 0 0 rfl rfl rfl)).clear (t := 0) (r := 0) rfl rfl rfl).client rfl
    (.releaseRecord 0 0 rfl rfl)
  -- the scan reads the other records and deletes the segment
  have h₇ := (h₆.collect (t := 3) [1, 0] rfl rfl).client rfl
    (.siftDelete 3 1 .orphans false _ ⟨0, 0⟩ [] [] rfl rfl rfl (by decide))
  exact ⟨_, h₇, rfl, List.mem_cons_self⟩

/-- Unguarded, a segment is handed to its deleter while a producer is about to claim in it. -/
theorem recycled_not_safe : ¬ ∀ s : State Nat, Runs 2 (fun _ _ _ => True) s → Safe s := by
  intro hsafe
  obtain ⟨s, hruns, huses, hdeleted⟩ := retired_deleted
  exact (hsafe s hruns).used 2 0 huses hdeleted

theorem kept_in_use :
    ∃ s : State Nat, Safe s ∧ uses (s.pc 2) = some 0 ∧ s.queue.head = 1 ∧
      s.domain.orphans = [s.segment 0] ∧ s.domain.deleted = [] := by
  obtain ⟨s, hruns, hkept⟩ := retired_kept
  exact ⟨s, unused_of_guardedRuns hruns, hkept⟩

/-- A thread has had the first segment from `protect`, and a consumer that has taken all of it
is about to move `head_`. -/
def taken : { s : State Nat // Reached 2 Guarded s } := by
  have h₀ : Reached 2 Guarded (.new : State Nat) := .start rfl
  have h₁ := (((h₀.client rfl (.acquire 0 rfl rfl)).client rfl (.acquireNew 0 rfl)).client rfl
    (.acquirePush 0 0 rfl)).client rfl (.acquireCount 0 rfl)
  have h₂ := ((((h₁.client rfl (.acquire 1 rfl rfl)).client rfl
    (.acquireLook 1 _ _ rfl)).client rfl (.acquireNew 1 rfl)).client rfl
    (.acquirePush 1 1 rfl)).client rfl (.acquireCount 1 rfl)
  -- a dequeue that finds nothing
  have h₃ := (h₂.go (.call (t := 1) .tryDequeue rfl rfl)).protectCovered (t := 1) (r := 1) (a := 0)
    (p := 0) rfl rfl rfl rfl rfl (fun _ h => by cases h)
    fun _ => Hazard.covered_of_quiet (by rintro (_ | _ | t) <;> rfl)
  have h₄ := ((h₃.go (.run (t := 1) false 0 rfl rfl)).go (.run (t := 1) false 0 rfl rfl)).go
    (.run (t := 1) false 0 rfl rfl)
  -- a producer fills the segment and links another one
  have h₅ := (h₄.go (.call (t := 0) (.enqueueBulk [10, 11, 12]) rfl rfl)).protectCovered (t := 0)
    (r := 0) (a := 1) (p := 0) rfl rfl rfl rfl rfl (fun _ h => by cases h)
    fun _ => Hazard.covered_of_quiet (by rintro (_ | _ | t) <;> rfl)
  have h₆ := (((h₅.go (.run (t := 0) false 0 rfl rfl)).go (.run (t := 0) false 0 rfl rfl)).go
    (.run (t := 0) false 0 rfl rfl)).go (.run (t := 0) false 0 rfl rfl)
  have h₇ := h₆.go (.take (t := 0) false 0 0 [12] 1 rfl (Nat.le_refl 0) (by
    rintro (⟨k, -, hk⟩ | ⟨t, ht⟩)
    · cases hk
    · cases ht) rfl)
  have h₈ := (h₇.go (.link (t := 0) false 0 0 _ [12] 1 rfl rfl rfl)).go
    (.run (t := 0) false 0 rfl rfl)
  have h₉ := h₈.protectCovered (t := 0) (r := 0) (a := 1) (p := 1)
    rfl rfl rfl rfl rfl (fun i h => by cases i <;> cases h)
    fun _ => Hazard.covered_of_quiet (by rintro (_ | _ | t) <;> rfl)
  have h₁₀ := ((h₉.go (.run (t := 0) false 1 rfl rfl)).go (.run (t := 0) false 1 rfl rfl)).go
    (.run (t := 0) false 1 rfl rfl)
  -- it takes both elements of the segment and is about to move `head_`
  have h₁₁ := h₁₀.go (.call (t := 0) (.tryDequeueBulk 2) rfl rfl)
  have h₁₂ := h₁₁.protectHit (t := 0) (r := 0) (p := 0) rfl rfl rfl rfl rfl rfl
  have h₁₃ := ((((h₁₂.go (.run (t := 0) false 0 rfl rfl)).go (.run (t := 0) false 0 rfl rfl)).go
    (.run (t := 0) false 0 rfl rfl)).go (.run (t := 0) false 0 rfl rfl)).go
    (.run (t := 0) false 0 rfl rfl)
  have h₁₄ := (((h₁₃.go (.run (t := 0) false 0 rfl rfl)).go (.run (t := 0) false 0 rfl rfl)).go
    (.run (t := 0) false 0 rfl rfl)).go (.run (t := 0) false 0 rfl rfl)
  have h₁₅ := h₁₄.go (.call (t := 0) .tryDequeue rfl rfl)
  have h₁₆ := h₁₅.protectHit (t := 0) (r := 0) (p := 0) rfl rfl rfl rfl rfl rfl
  have h₁₇ := (h₁₆.go (.run (t := 0) false 0 rfl rfl)).go (.run (t := 0) false 0 rfl rfl)
  exact ⟨_, h₁₇⟩

end Uvent.Queue.Recycling
