import Uvent.Queue.RecyclingMemory

/-!
# No segment in use is deleted

The slot that `protect` returned a segment from stays as it is while the thread uses the
segment, and the domain deletes nothing that such a slot holds.
-/

namespace Uvent.Queue.Recycling

open Uvent.Queue.Segmented
open Uvent.Reclaim
open Uvent.Reclaim.Hazard (goto_pc)

variable {α : Type} {size : Nat} {s s' : State α} {t k a : Nat} {e : Hazard.Event}

/-! ### What a thread holds -/

/-- A slot of the thread holds the segment at place `k`, which `protect` returned from it. -/
def Holds (s : State α) (t k : Nat) : Prop :=
  ∃ r i, (s.domain.thread t).tls = some r ∧ (s.domain.record r).hp i = some (s.addr k) ∧
    (s.domain.record r).returned i = some (s.birth k)

/-- The place that `protect` has loaded from source `a`. -/
structure Seen (s : State α) (t a : Nat) : Prop where
  linked : s.seen t ≤ s.queue.last
  tail : a = 1 → s.seen t ≤ s.queue.tail

/-- The source that a call of `protect` is for, before it returns. -/
def asking : Hazard.Pc → Option Nat
  | .protectLoad a | .protectCheck a .. | .protectPublish a _ | .protectValidate a .. => some a
  | _ => none

/-- What is known of a call of `protect` from the queue. -/
structure Asks (s : State α) (t : Nat) : Prop where
  asking : ∀ a, asking (s.domain.thread t).pc = some a → source (s.pc t) = some a
  check : ∀ a p g j, (s.domain.thread t).pc = .protectCheck a p g j →
    Seen s t a ∧ p = s.addr (s.seen t) ∧ g = s.birth (s.seen t)
  done : ∀ res, (s.domain.thread t).pc = .done res → ∀ a, source (s.pc t) = some a →
    Seen s t a ∧ Holds s t (s.seen t)

structure Held (s : State α) (t : Nat) : Prop where
  keeps : ∀ k, uses (s.pc t) = some k → (s.domain.thread t).pc = .idle ∧ Holds s t k
  asks : s.pc t ≠ .idle → Asks s t

structure Undisturbed (t : Nat) (s s' : State α) : Prop where
  pc : s'.pc t = s.pc t
  seen : s'.seen t = s.seen t
  thread : s'.domain.thread t = s.domain.thread t
  kept : ∀ r, (s.domain.thread t).tls = some r → Hazard.Kept s.domain s'.domain r
  addr : ∀ k ≤ s.queue.last, s'.addr k = s.addr k
  birth : ∀ k ≤ s.queue.last, s'.birth k = s.birth k
  tail : s.queue.tail ≤ s'.queue.tail
  last : s.queue.last ≤ s'.queue.last

theorem Holds.undisturbed (h : Holds s t k) (hu : Undisturbed t s s') (hk : k ≤ s.queue.last) :
    Holds s' t k := by
  obtain ⟨r, i, htls, hhp, hreturned⟩ := h
  obtain ⟨hkept, hkept'⟩ := hu.kept r htls
  refine ⟨r, i, ?_, ?_, ?_⟩
  · rw [hu.thread]
    exact htls
  · rw [hkept, hu.addr k hk]
    exact hhp
  · rw [hkept', hu.birth k hk]
    exact hreturned

theorem Seen.undisturbed (h : Seen s t a) (hu : Undisturbed t s s') : Seen s' t a := by
  refine ⟨?_, fun ha => ?_⟩
  · rw [hu.seen]
    exact Nat.le_trans h.linked hu.last
  · rw [hu.seen]
    exact Nat.le_trans (h.tail ha) hu.tail

theorem Held.undisturbed (h : Held s t) (horder : Order s.queue s.pc) (hu : Undisturbed t s s') :
    Held s' t := by
  refine ⟨fun k hk => ?_, fun hbusy => ?_⟩
  · rw [hu.pc] at hk
    obtain ⟨hidle, hholds⟩ := h.keeps k hk
    rw [hu.thread]
    exact ⟨hidle, hholds.undisturbed hu ((horder.fits t).le_last horder.tail hk)⟩
  · rw [hu.pc] at hbusy
    obtain ⟨hasking, hcheck, hdone⟩ := h.asks hbusy
    refine ⟨fun a ha => ?_, fun a p g j hpc => ?_, fun res hpc a ha => ?_⟩
    · rw [hu.thread] at ha
      rw [hu.pc]
      exact hasking a ha
    · rw [hu.thread] at hpc
      obtain ⟨hseen, hp, hg⟩ := hcheck a p g j hpc
      rw [hu.seen, hu.addr _ hseen.linked, hu.birth _ hseen.linked]
      exact ⟨hseen.undisturbed hu, hp, hg⟩
    · rw [hu.thread] at hpc
      rw [hu.pc] at ha
      obtain ⟨hseen, hholds⟩ := hdone res hpc a ha
      rw [hu.seen]
      exact ⟨hseen.undisturbed hu, hholds.undisturbed hu hseen.linked⟩

/-- A thread outside the domain has no call of `protect` to know about. -/
theorem Held.outside (hidle : (s.domain.thread t).pc = .idle)
    (huses : ∀ k, uses (s.pc t) = some k → Holds s t k) : Held s t := by
  refine ⟨fun k hk => ⟨hidle, huses k hk⟩, fun _ => ⟨fun a ha => ?_, ?_, ?_⟩⟩
  · rw [hidle] at ha
    cases ha
  · rw [hidle]
    exact fun _ _ _ _ => nofun
  · rw [hidle]
    exact fun _ => nofun

theorem Held.inside (hpc : uses (s.pc t) = none) (hasking : asking (s.domain.thread t).pc = none)
    (hdone : ∀ res, (s.domain.thread t).pc ≠ .done res) : Held s t := by
  refine ⟨fun k hk => ?_, fun _ => ⟨fun a ha => ?_, fun a p g j hcheck => ?_, fun res hres => ?_⟩⟩
  · rw [hpc] at hk
    cases hk
  · rw [hasking] at ha
    cases ha
  · rw [hcheck] at hasking
    cases hasking
  · exact absurd hres (hdone res)

/-! ### The invariant -/

structure Inv (s : State α) : Prop where
  runs : Hazard.Runs Hazard.Sound s.domain
  head : s.domain.src 0 = some (s.addr s.queue.head)
  tail : s.domain.src 1 = some (s.addr s.queue.tail)
  order : Order s.queue s.pc
  memory : Memory s
  held : ∀ t, Held s t

theorem Inv.holds_live (h : Inv s) (hk : k ≤ s.queue.last) (hholds : Holds s t k) : s.Live k := by
  obtain ⟨r, i, -, hhp, hreturned⟩ := hholds
  have hprotected := (Hazard.slots_of_runs h.runs).guarded (Hazard.books_of_runs h.runs)
  exact ⟨hk, hprotected.held r i _ _ hhp hreturned⟩

theorem Inv.uses_live (h : Inv s) (hk : uses (s.pc t) = some k) : s.Live k :=
  h.holds_live ((h.order.fits t).le_last h.order.tail hk) ((h.held t).keeps k hk).2

theorem Inv.fits_of (h : Inv s) {pc : Pc α} (hpc : s.pc t = pc) : Fits s.queue pc :=
  hpc ▸ h.order.fits t

theorem uses_of_swings {pc : Pc α} (h : swings pc = some k) : uses pc = some k := by
  cases pc with
  | swing | swingLast => exact h
  | _ => cases h

theorem Inv.live_head (h : Inv s) : s.Live s.queue.head :=
  ⟨h.order.head, h.memory.live _ (Nat.le_refl _) h.order.head⟩

/-- The segment `tail_` points to is not deleted, though it may be retired: then a thread that
is about to move `tail_` holds it. -/
theorem Inv.live_tail (h : Inv s) : s.Live s.queue.tail := by
  rcases Nat.lt_or_eq_of_le h.order.tail with hlt | heq
  · obtain ⟨t, ht⟩ := h.order.lag hlt
    exact h.uses_live (uses_of_swings ht)
  · refine ⟨h.order.tail, h.memory.live _ ?_ h.order.tail⟩
    rw [heq]
    exact h.order.head

/-- The segment `head_` points to is not on any list. -/
theorem Inv.sound (h : Inv s) (hok : Guarded s t e) : Hazard.Sound s.domain t e := by
  cases e with
  | load a =>
      cases a with
      | succ a => exact hok a rfl
      | zero =>
          intro p r i hp _ _ _ t' which hz _ hlisted
          obtain ⟨r', _, x, hx, rfl⟩ := hlisted
          have hgone := ((Hazard.books_of_runs h.runs).waiting (which.place r') x
            (by cases which <;> nofun) hx).2
          have hself : x.p = s.addr s.queue.head := Option.some.inj (hp.symm.trans h.head)
          rw [hself] at hgone
          exact absurd (h.memory.gone _ h.live_head hgone).1 (Nat.lt_irrefl _)
  | store | retire | other => trivial

theorem Inv.safe (h : Inv s) : Safe s :=
  ⟨fun _ _ hk => (h.uses_live hk).2, fun t k hk => (h.memory.retiring t k hk).1.2⟩
/-! ### Steps of the domain -/

theorem undisturbed_domain (h : Inv s) {d : Hazard.State} (hstep : Hazard.Step s.domain t e d)
    {t' : Nat} (hne : t' ≠ t) (hdomain : s'.domain = d) (hqueue : s'.queue = s.queue)
    (hpc : s'.pc = s.pc) (hseen : s'.seen t' = s.seen t') (haddr : s'.addr = s.addr)
    (hbirth : s'.birth = s.birth) : Undisturbed t' s s' := by
  have hrecords := Hazard.records_of_runs h.runs
  refine ⟨congrFun hpc t', hseen, ?_, fun r hr => ?_, fun k _ => congrFun haddr k,
    fun k _ => congrFun hbirth k, ?_, ?_⟩
  · rw [hdomain]
    exact Hazard.step_others hstep hne
  · rw [hdomain]
    exact Hazard.step_kept hrecords hstep hne hr
  · exact Nat.le_of_eq (by rw [hqueue])
  · exact Nat.le_of_eq (by rw [hqueue])

/-- A step of thread `t` in the domain that is no `retire` of the queue. -/
theorem Inv.domain (h : Inv s) (hok : Guarded s t e) {d : Hazard.State}
    (hstep : Hazard.Step s.domain t e d) (hforeign : s.Foreign e) {seen : Nat → Nat}
    (hseen : ∀ t', t' ≠ t → seen t' = s.seen t')
    (hself : Held { s with domain := d, seen := seen } t) :
    Inv { s with domain := d, seen := seen } := by
  have hsrc : ∀ a, a < 2 → d.src a = s.domain.src a := by
    intro a ha
    by_cases hstore : ∃ b v, e = .store b v
    · obtain ⟨b, v, rfl⟩ := hstore
      have hb : 2 ≤ b := hforeign
      cases hstep with
      | store => exact Function.update_of_ne (Nat.ne_of_lt (Nat.lt_of_lt_of_le ha hb)) ..
    · rw [Hazard.step_src hstep fun b v he => hstore ⟨b, v, he⟩]
  refine ⟨h.runs.step hstep (h.sound hok), ?_, ?_, h.order, ?_, fun t' => ?_⟩
  · exact (hsrc 0 (by decide)).trans h.head
  · exact (hsrc 1 (by decide)).trans h.tail
  · refine h.memory.domain (Hazard.books_of_runs h.runs) hstep ⟨rfl, rfl, rfl, rfl⟩ ?_ rfl rfl
    rintro p rfl
    exact hforeign
  · by_cases hne : t' = t
    · rw [hne]
      exact hself
    · exact (h.held t').undisturbed h.order
        (undisturbed_domain h hstep hne rfl rfl rfl (hseen t' hne) rfl rfl)

theorem Inv.loads (h : Inv s) {p : Nat} (ha : source (s.pc t) = some a)
    (hp : s.domain.src a = some p) :
    ∃ k, (s.inside t (.load a) s.domain).seen t = k ∧ s.Live k ∧ p = s.addr k ∧
      (a = 1 → k ≤ s.queue.tail) := by
  cases hpc : s.pc t with
  | protectHead max =>
      rw [hpc] at ha
      cases ha
      refine ⟨_, Function.update_self .., h.live_head, ?_, nofun⟩
      exact Option.some.inj (hp.symm.trans h.head)
  | protectTail carry op vs =>
      rw [hpc] at ha
      cases ha
      refine ⟨_, Function.update_self .., h.live_tail, ?_, fun _ => Nat.le_refl _⟩
      exact Option.some.inj (hp.symm.trans h.tail)
  | _ =>
      rw [hpc] at ha
      cases ha

theorem uses_of_source {pc : Pc α} (h : source pc = some a) : uses pc = none := by
  cases pc with
  | protectHead | protectTail => rfl
  | _ => cases h

theorem Inv.after_load (h : Inv s) (ha : source (s.pc t) = some a) :
    Held (s.inside t (.load a) (s.domain.goto t (Hazard.afterLoad s.domain a))) t := by
  have hsome : ∃ p, s.domain.src a = some p := by
    cases hpc : s.pc t with
    | protectHead max =>
        rw [hpc] at ha
        cases ha
        exact ⟨_, h.head⟩
    | protectTail carry op vs =>
        rw [hpc] at ha
        cases ha
        exact ⟨_, h.tail⟩
    | _ =>
        rw [hpc] at ha
        cases ha
  obtain ⟨p, hp⟩ := hsome
  obtain ⟨k, hseen, hlive, haddr, htail⟩ := h.loads ha hp
  have hafter : Hazard.afterLoad s.domain a = .protectCheck a p (s.domain.gen p) 0 := by
    unfold Hazard.afterLoad
    rw [hp]
  have hpc : ((s.domain.goto t (Hazard.afterLoad s.domain a)).thread t).pc =
      .protectCheck a p (s.domain.gen p) 0 := (goto_pc ..).trans hafter
  refine ⟨fun k hk => ?_, fun _ => ⟨fun b hb => ?_, fun b q g j hcheck => ?_, fun res hres => ?_⟩⟩
  · exact absurd ((uses_of_source ha).symm.trans hk) nofun
  · exact ha.trans ((congrArg asking hpc).symm.trans hb)
  · obtain ⟨rfl, rfl, rfl, rfl⟩ := Hazard.Pc.protectCheck.inj (hpc.symm.trans hcheck)
    refine ⟨⟨?_, fun h1 => ?_⟩, ?_, ?_⟩
    · exact Nat.le_trans (Nat.le_of_eq hseen) hlive.1
    · exact Nat.le_trans (Nat.le_of_eq hseen) (htail h1)
    · exact haddr.trans (congrArg s.addr hseen.symm)
    · rw [haddr, h.memory.gen k hlive]
      exact congrArg s.birth hseen.symm
  · cases hpc.symm.trans hres

theorem Inv.asking_on (h : Inv s) (hbusy : s.pc t ≠ .idle) {pc : Hazard.Pc}
    (hold : asking (s.domain.thread t).pc = some a) (hnew : asking pc = some a)
    (hcheck : ∀ b p g j, pc = .protectCheck b p g j →
      ∃ i, (s.domain.thread t).pc = .protectCheck b p g i)
    {d : Hazard.State} (hpc : (d.thread t).pc = pc) : Held { s with domain := d } t := by
  have hasks := (h.held t).asks hbusy
  have ha := hasks.asking a hold
  refine ⟨fun k hk => ?_, fun _ => ⟨fun b hb => ?_, fun b p g j hb => ?_, fun res hres => ?_⟩⟩
  · exact absurd ((uses_of_source ha).symm.trans hk) nofun
  · exact ha.trans (hnew.symm.trans ((congrArg asking hpc).symm.trans hb))
  · obtain ⟨i, hi⟩ := hcheck b p g j (hpc.symm.trans hb)
    obtain ⟨hseen, hp, hg⟩ := hasks.check b p g i hi
    exact ⟨⟨hseen.linked, hseen.tail⟩, hp, hg⟩
  · exact absurd (hnew.symm.trans (congrArg asking (hpc.symm.trans hres))) nofun

/-- A call of `protect`, from its first load to its return. -/
def protecting : Hazard.Pc → Bool
  | .protectLoad _ | .protectCheck .. | .protectPublish .. | .protectValidate .. | .done _ => true
  | _ => false

theorem Held.off (hnone : uses (s.pc t) = none) {pc : Hazard.Pc}
    (hpc : (s.domain.thread t).pc = pc) (hoff : protecting pc = false) : Held s t := by
  refine Held.inside hnone ?_ fun res hres => ?_
  · rw [hpc]
    cases pc with
    | protectLoad | protectCheck | protectPublish | protectValidate => cases hoff
    | _ => rfl
  · rw [hpc] at hres
    rw [hres] at hoff
    cases hoff

theorem setRec_pc (d : Hazard.State) (t : Nat) (pc : Hazard.Pc) (r : Option Nat) :
    ((d.setRec t pc r).thread t).pc = pc := by
  show (Function.update d.thread t ⟨pc, r⟩ t).pc = pc
  rw [Function.update_self]

theorem held_done {d : Hazard.State} {r i p g : Nat} {res : Option Nat}
    (hnone : uses (s.pc t) = none) (hdomain : s.domain = (d.returnSlot r i g).goto t (.done res))
    (hbound : (d.thread t).tls = some r) (hhp : (d.record r).hp i = some p)
    (hseen : ∀ b, source (s.pc t) = some b → Seen s t b) (hp : p = s.addr (s.seen t))
    (hg : g = s.birth (s.seen t)) : Held s t := by
  have hpc : (s.domain.thread t).pc = .done res := by
    rw [hdomain]
    exact goto_pc ..
  refine ⟨fun k hk => ?_, fun _ => ⟨fun b hb => ?_, fun b q g j hcheck => ?_, fun _ _ b hb => ?_⟩⟩
  · exact absurd (hnone.symm.trans hk) nofun
  · exact absurd ((congrArg asking hpc).symm.trans hb) nofun
  · exact absurd (hpc.symm.trans hcheck) nofun
  · refine ⟨hseen b hb, r, i, ?_, ?_, ?_⟩
    · rw [hdomain]
      show (Function.update d.thread t { d.thread t with pc := .done res } t).tls = some r
      rw [Function.update_self]
      exact hbound
    · rw [hdomain, ← hp]
      show (Function.update d.record r _ r).hp i = some p
      rw [Function.update_self]
      exact hhp
    · rw [hdomain, ← hg]
      show (Function.update d.record r _ r).returned i = some g
      rw [Function.update_self]
      exact Function.update_self ..

theorem Inv.held_inside (h : Inv s) {d : Hazard.State} (hbusy : s.pc t ≠ .idle)
    (hmidway : (s.domain.thread t).pc ≠ .idle)
    (hunfinished : ∀ result, (s.domain.thread t).pc ≠ .done result)
    (hown : ∀ a v, e ≠ .store a v) (hstep : Hazard.Step s.domain t e d) :
    Held (s.inside t e d) t := by
  have hnone : uses (s.pc t) = none := by
    cases hk : uses (s.pc t) with
    | none => rfl
    | some k => exact absurd ((h.held t).keeps k hk).1 hmidway
  have hasks := (h.held t).asks hbusy
  cases hstep with
  | store a v => exact absurd rfl (hown a v)
  | acquire pc unbound => exact absurd pc hmidway
  | acquireLook r rest pc =>
      refine Held.off hnone (goto_pc ..) ?_
      split <;> rfl
  | acquireTaken r rest pc used => exact Held.off hnone (goto_pc ..) rfl
  | acquireTake r rest pc free => exact Held.off hnone (setRec_pc ..) rfl
  | acquireNew pc => exact Held.off hnone (goto_pc ..) rfl
  | acquirePush r pc => exact Held.off hnone (setRec_pc ..) rfl
  | acquireRetry r l pc => exact Held.off hnone (goto_pc ..) rfl
  | acquireCount pc => exact Held.off hnone (goto_pc ..) rfl
  | protect r a pc bound => exact absurd pc hmidway
  | protectLoad a pc => exact h.after_load (hasks.asking a (by rw [pc]; rfl))
  | protectHit r a p g i pc bound more hit =>
      obtain ⟨hseen, hp, hg⟩ := hasks.check a p g i pc
      refine held_done hnone rfl bound hit (fun b hb => ?_) hp hg
      have ha := hasks.asking a (by rw [pc]; rfl)
      obtain rfl : b = a := Option.some.inj (hb.symm.trans ha)
      exact ⟨hseen.linked, hseen.tail⟩
  | protectMiss r a p g i pc bound more miss =>
      refine h.asking_on hbusy (a := a) (by rw [pc]; rfl) rfl (fun b p' g' j hcheck => ?_)
        (goto_pc ..)
      cases hcheck
      exact ⟨i, pc⟩
  | protectFull a p g pc =>
      refine h.asking_on hbusy (a := a) (by rw [pc]; rfl) rfl (fun b p' g' j hcheck => ?_)
        (goto_pc ..)
      cases hcheck
  | protectPublish r a p pc bound =>
      refine h.asking_on hbusy (a := a) (by rw [pc]; rfl) rfl (fun b p' g' j hcheck => ?_)
        (goto_pc ..)
      cases hcheck
  | protectValidate r a p i pc bound again =>
      have ha := hasks.asking a (by rw [pc]; rfl)
      obtain ⟨k, hseen, hlive, haddr, htail⟩ := h.loads ha again
      have htidy := (Hazard.slots_of_runs h.runs).tidy t r bound
      refine held_done hnone rfl bound (htidy.validating a p i pc).2 (fun b hb => ?_) ?_ ?_
      · obtain rfl : b = a := Option.some.inj (hb.symm.trans ha)
        refine ⟨?_, fun h1 => ?_⟩
        · exact Nat.le_trans (Nat.le_of_eq hseen) hlive.1
        · exact Nat.le_trans (Nat.le_of_eq hseen) (htail h1)
      · exact haddr.trans (congrArg s.addr hseen.symm)
      · rw [haddr, h.memory.gen k hlive]
        exact congrArg s.birth hseen.symm
  | protectAgain a p i pc changed => exact h.after_load (hasks.asking a (by rw [pc]; rfl))
  | protectReturn result pc => exact absurd pc (hunfinished result)
  | retire r p pc bound once => exact absurd pc hmidway
  | retireCount r pc bound =>
      refine Held.off hnone (goto_pc ..) ?_
      split <;> rfl
  | scan r pc bound => exact absurd pc hmidway
  | collect r which leaving hz rest pc =>
      refine Held.off hnone (goto_pc ..) ?_
      split <;> rfl
  | collectSlot r i which leaving hz rest pc more => exact Held.off hnone (goto_pc ..) rfl
  | collectNext r which leaving hz rest pc => exact Held.off hnone (goto_pc ..) rfl
  | collectEnd which leaving hz pc => exact Held.off hnone (goto_pc ..) rfl
  | siftKeep r which leaving hz x kept rest pc bound next hazard =>
      have hsift : ((s.domain.setList r (kept ++ [x]) rest which).thread t).pc = .sift which leaving hz := by
        rw [Hazard.setList_thread, pc]
      exact Held.off hnone hsift rfl
  | siftDelete r which leaving hz x kept rest pc bound next free =>
      have hsift : ((s.domain.setList r kept rest which).thread t).pc = .sift which leaving hz := by
        rw [Hazard.setList_thread, pc]
      exact Held.off hnone hsift rfl
  | siftEnd r which leaving hz kept pc bound finished =>
      refine Held.off hnone (goto_pc ..) ?_
      cases which <;> rfl
  | tryLockFail leaving pc =>
      refine Held.off hnone (goto_pc ..) ?_
      cases leaving <;> rfl
  | tryLock leaving pc unlocked =>
      refine Held.off hnone (goto_pc ..) ?_
      split <;> rfl
  | unlock leaving pc =>
      refine Held.off hnone (goto_pc ..) ?_
      cases leaving <;> rfl
  | release r pc bound => exact absurd pc hmidway
  | releaseNone r pc bound empty => exact Held.off hnone (goto_pc ..) rfl
  | releaseOrphans r pc bound left unlocked => exact Held.off hnone (goto_pc ..) rfl
  | releaseSlot r i pc bound more => exact Held.off hnone (goto_pc ..) rfl
  | releaseRecord r pc bound => exact Held.off hnone (setRec_pc ..) rfl

theorem Inv.inside (h : Inv s) (hok : Guarded s t e) {d : Hazard.State} (hbusy : s.pc t ≠ .idle)
    (hmidway : (s.domain.thread t).pc ≠ .idle)
    (hunfinished : ∀ result, (s.domain.thread t).pc ≠ .done result)
    (hown : ∀ a v, e ≠ .store a v) (hstep : Hazard.Step s.domain t e d) :
    Inv (s.inside t e d) := by
  refine h.domain hok hstep ?_ (fun t' hne => ?_)
    (h.held_inside hbusy hmidway hunfinished hown hstep)
  · cases hstep with
    | store a v => exact absurd rfl (hown a v)
    | retire r p pc bound once => exact absurd pc hmidway
    | _ => trivial
  · cases e with
    | load a =>
        cases a with
        | zero => exact Function.update_of_ne hne ..
        | succ a => exact Function.update_of_ne hne ..
    | store | retire | other => rfl

theorem Inv.client (h : Inv s) (hok : Guarded s t e) {d : Hazard.State} (hpc : s.pc t = .idle)
    (hforeign : s.Foreign e) (hstep : Hazard.Step s.domain t e d) :
    Inv { s with domain := d } := by
  refine h.domain hok hstep hforeign (fun _ _ => rfl) ⟨fun k hk => ?_, fun hbusy => ?_⟩
  · have hnone : uses (s.pc t) = none := by
      rw [hpc]
      rfl
    exact absurd (hnone.symm.trans hk) nofun
  · exact absurd hpc hbusy

theorem Inv.enter (h : Inv s) (hnone : uses (s.pc t) = none) {pc : Hazard.Pc}
    (hstep : Hazard.Step s.domain t .other (s.domain.goto t pc))
    (hasking : ∀ a, asking pc = some a → source (s.pc t) = some a)
    (hcheck : ∀ a p g j, pc ≠ .protectCheck a p g j) (hdone : ∀ res, pc ≠ .done res) :
    Inv { s with domain := s.domain.goto t pc } := by
  have hpc := goto_pc s.domain t pc
  have hok : Guarded s t .other := fun _ => nofun
  refine h.domain hok hstep trivial (fun _ _ => rfl) ⟨fun k hk => ?_, fun _ => ?_⟩
  · exact absurd (hnone.symm.trans hk) nofun
  · refine ⟨fun a ha => hasking a ((congrArg asking hpc).symm.trans ha), fun a p g j hc => ?_,
      fun res hres => ?_⟩
    · exact absurd (hpc.symm.trans hc) (hcheck a p g j)
    · exact absurd (hpc.symm.trans hres) (hdone res)

theorem Inv.once (h : Inv s) (waiting : s.retiring t = some k) :
    s.domain.gone (s.addr k) = false := by
  by_contra hgone
  rw [Bool.not_eq_false] at hgone
  exact (h.memory.gone k (h.memory.retiring t k waiting).1 hgone).2 t waiting

theorem Inv.retire (h : Inv s) {r : Nat} (pc : source (s.pc t) = some a)
    (waiting : s.retiring t = some k) (outside : (s.domain.thread t).pc = .idle)
    (bound : (s.domain.thread t).tls = some r) :
    Inv
      { s with
        domain := (s.domain.retire r (s.addr k)).goto t .retireCount,
        retiring := Function.update s.retiring t none } := by
  have hstep := Hazard.Step.retire (s := s.domain) t r (s.addr k) outside bound (h.once waiting)
  refine ⟨h.runs.step hstep, h.head, h.tail, h.order, ?_,
    fun t' => ?_⟩
  · exact h.memory.retire ⟨rfl, rfl, rfl, rfl⟩ waiting rfl rfl rfl rfl rfl
  · by_cases hne : t' = t
    · rw [hne]
      exact Held.off (uses_of_source pc) (goto_pc ..) rfl
    · exact (h.held t').undisturbed h.order (undisturbed_domain h hstep hne rfl rfl rfl rfl rfl rfl)

/-! ### Steps of the queue -/

theorem runs_setQueue {m : State α} (h : Hazard.Runs Hazard.Sound m.domain)
    (next : Chain α × Pc α) : Hazard.Runs Hazard.Sound (m.setQueue t next).domain :=
  (h.step (.store t 0 (some (m.addr next.1.head)))).step (.store t 1 (some (m.addr next.1.tail)))

theorem Inv.setQueue (h : Inv s) {m : State α} {next : Chain α × Pc α} (hpc : m.pc = s.pc)
    (hseen : m.seen = s.seen) (hdomain : m.domain = s.domain)
    (haddr : ∀ k ≤ s.queue.last, m.addr k = s.addr k)
    (hbirth : ∀ k ≤ s.queue.last, m.birth k = s.birth k) (htail : s.queue.tail ≤ next.1.tail)
    (hlast : s.queue.last ≤ next.1.last) (hmemory : Memory (m.setQueue t next))
    (horder : Order next.1 (Function.update s.pc t next.2))
    (hidle : (s.domain.thread t).pc = .idle)
    (hnext : ∀ k, uses next.2 = some k → k ≤ s.queue.last ∧ Holds s t k) :
    Inv (m.setQueue t next) := by
  have hself : (m.setQueue t next).pc t = next.2 := Function.update_self ..
  have hsrc : (m.setQueue t next).domain.src =
      Function.update (Function.update m.domain.src 0 (some (m.addr next.1.head))) 1
        (some (m.addr next.1.tail)) := rfl
  refine ⟨runs_setQueue (hdomain ▸ h.runs) next, ?_, ?_, ?_, hmemory, fun t' => ?_⟩
  · rw [hsrc, Function.update_of_ne Nat.zero_ne_one, Function.update_self]
    rfl
  · rw [hsrc, Function.update_self]
    rfl
  · show Order next.1 (Function.update m.pc t next.2)
    rw [hpc]
    exact horder
  · have hthread : (m.setQueue t next).domain.thread = s.domain.thread := by
      show m.domain.thread = _
      rw [hdomain]
    have hrecord : (m.setQueue t next).domain.record = s.domain.record := by
      show m.domain.record = _
      rw [hdomain]
    by_cases hne : t' = t
    · rw [hne]
      refine Held.outside ?_ fun k hk => ?_
      · rw [hthread]
        exact hidle
      · rw [hself] at hk
        obtain ⟨hle, r, i, htls, hhp, hreturned⟩ := hnext k hk
        refine ⟨r, i, ?_, ?_, ?_⟩
        · rw [hthread]
          exact htls
        · rw [hrecord]
          exact hhp.trans (congrArg some (haddr k hle).symm)
        · rw [hrecord]
          exact hreturned.trans (congrArg some (hbirth k hle).symm)
    · refine (h.held t').undisturbed h.order ⟨?_, congrFun hseen t', congrFun hthread t', ?_, haddr,
        hbirth, htail, hlast⟩
      · exact (Function.update_of_ne hne ..).trans (congrFun hpc t')
      · intro r _
        unfold Hazard.Kept
        rw [hrecord]
        exact ⟨rfl, rfl⟩

theorem Inv.sameEnds (h : Inv s) {m : State α} {next : Chain α × Pc α} (hpc : m.pc = s.pc)
    (hseen : m.seen = s.seen) (hdomain : m.domain = s.domain) (haddr : m.addr = s.addr)
    (hbirth : m.birth = s.birth) (hqueue : m.queue = s.queue) (hmemory : Memory m)
    (hends : SameEnds s.queue next.1) (hswings : swings (s.pc t) = none)
    (hfits : Fits s.queue next.2) (hidle : (s.domain.thread t).pc = .idle)
    (hnext : ∀ k, uses next.2 = some k → k ≤ s.queue.last ∧ Holds s t k) :
    Inv (m.setQueue t next) := by
  refine h.setQueue hpc hseen hdomain (fun k _ => congrFun haddr k) (fun k _ => congrFun hbirth k)
    (Nat.le_of_eq hends.tail.symm) (Nat.le_of_eq hends.last.symm) ?_
    (h.order.stays hends hswings hfits) hidle hnext
  refine hmemory.pass ⟨?_, ?_, rfl, rfl⟩ rfl rfl rfl rfl rfl
  · rw [hqueue]
    exact hends.head
  · rw [hqueue]
    exact hends.last

theorem Inv.call (h : Inv s) (c : Call α) (hpc : s.pc t = .idle)
    (hidle : (s.domain.thread t).pc = .idle) : Inv (s.setQueue t (c.start size t s.queue)) := by
  have hstart : SameEnds s.queue (c.start size t s.queue).1 ∧
      uses (c.start size t s.queue).2 = none := start_stays c
  obtain ⟨hends, hnone⟩ := hstart
  refine h.sameEnds rfl rfl rfl rfl rfl rfl h.memory hends ?_ (fits_of_unused hnone) hidle ?_
  · rw [hpc]
    rfl
  · intro k hk
    exact absurd (hnone.symm.trans hk) nofun

theorem Inv.stays (h : Inv s) {m : State α} {next : Chain α × Pc α}
    (hstays : Stays s.queue k next) (hswings : swings (s.pc t) = none)
    (hidle : (s.domain.thread t).pc = .idle) (hk : k ≤ s.queue.last ∧ Holds s t k)
    (hpc : m.pc = s.pc) (hseen : m.seen = s.seen) (hdomain : m.domain = s.domain)
    (haddr : m.addr = s.addr) (hbirth : m.birth = s.birth) (hqueue : m.queue = s.queue)
    (hmemory : Memory m) : Inv (m.setQueue t next) := by
  refine h.sameEnds hpc hseen hdomain haddr hbirth hqueue hmemory hstays.ends hswings hstays.fits
    hidle fun k' hk' => ?_
  rcases hstays.uses with hsome | hnone
  · obtain rfl := Option.some.inj (hsome.symm.trans hk')
    exact hk
  · exact absurd (hnone.symm.trans hk') nofun

theorem Inv.obtained (h : Inv s) {p : Nat} (hpc : source (s.pc t) = some a)
    (hdone : (s.domain.thread t).pc = .done (some p)) :
    Inv ({ s with domain := s.domain.goto t .idle }.setQueue t
      (obtained s.queue (s.seen t) (s.pc t))) := by
  have hbusy : s.pc t ≠ .idle := by
    intro hidle
    rw [hidle] at hpc
    cases hpc
  obtain ⟨hseen, hholds⟩ := ((h.held t).asks hbusy).done _ hdone a hpc
  have hm : Inv { s with domain := s.domain.goto t .idle } :=
    h.enter (uses_of_source hpc) (.protectReturn t (some p) hdone) (fun _ => nofun)
      (fun _ _ _ _ => nofun) fun _ => nofun
  have hstays : Stays s.queue (s.seen t) (Recycling.obtained s.queue (s.seen t) (s.pc t)) := by
    cases hq : s.pc t with
    | protectTail carry op vs =>
        rw [hq] at hpc
        exact stays_nextClaim (hseen.tail (Option.some.inj hpc).symm) carry op vs
    | protectHead max => exact ⟨⟨rfl, rfl, rfl⟩, .inl rfl, hseen.linked⟩
    | _ =>
        rw [hq] at hpc
        cases hpc
  have hswings := swings_of_unused (uses_of_source hpc)
  refine hm.stays hstays hswings (goto_pc ..) ⟨hseen.linked, ?_⟩ rfl rfl rfl rfl rfl rfl hm.memory
  obtain ⟨r, i, htls, hhp, hreturned⟩ := hholds
  refine ⟨r, i, ?_, hhp, hreturned⟩
  show (Function.update s.domain.thread t _ t).tls = some r
  rw [Function.update_self]
  exact htls

theorem Inv.swing (h : Inv s) {next : Chain α × Pc α} (hswings : swings (s.pc t) = some k)
    (hlinked : k < s.queue.last) (hends : SameEnds (s.queue.swingTail k) next.1)
    (hnext : uses next.2 = none) : Inv (s.setQueue t next) := by
  obtain ⟨hhead, hlast, hle⟩ := swingTail_kept s.queue k
  rw [← hends.head] at hhead
  rw [← hends.last] at hlast
  rw [← hends.tail] at hle
  have horder := h.order.swing hswings hlinked hhead hlast hends.tail hnext
  refine h.setQueue rfl rfl rfl (fun _ _ => rfl) (fun _ _ => rfl) hle (Nat.le_of_eq hlast.symm)
    ?_ horder ((h.held t).keeps k (uses_of_swings hswings)).1 fun k' hk' => ?_
  · exact h.memory.pass ⟨hhead, hlast, rfl, rfl⟩ rfl rfl rfl rfl rfl
  · exact absurd (hnext.symm.trans hk') nofun

theorem Inv.run (h : Inv s) (spurious : Bool) (hk : uses (s.pc t) = some k)
    (hplain : moves (s.pc t) = false) :
    Inv (s.setQueue t (exec size t spurious s.queue (s.pc t))) := by
  obtain ⟨hidle, hholds⟩ := (h.held t).keeps k hk
  have hfits := h.order.fits t
  cases hswings : swings (s.pc t) with
  | none =>
      have hstays : Stays s.queue k (exec size t spurious s.queue (s.pc t)) :=
        exec_stays spurious hk hplain hswings hfits
      exact h.stays hstays hswings hidle ⟨hfits.le_last h.order.tail hk, hholds⟩ rfl rfl rfl rfl
        rfl rfl h.memory
  | some k =>
      cases hpc : s.pc t with
      | swing carry op s₀ vs =>
          rw [hpc] at hswings hfits
          obtain rfl := Option.some.inj hswings
          exact h.swing (by rw [hpc]; rfl) hfits ⟨rfl, rfl, rfl⟩ rfl
      | swingLast op s₀ =>
          rw [hpc] at hswings hfits
          obtain rfl := Option.some.inj hswings
          exact h.swing (by rw [hpc]; rfl) hfits ⟨rfl, rfl, rfl⟩ rfl
      | _ =>
          rw [hpc] at hswings
          cases hswings

theorem Inv.follow (h : Inv s) {carry : Bool} {op : Nat} {vs : List α}
    (hpc : s.pc t = .loadNext carry op k vs) (hlinked : k < s.queue.last) :
    Inv (s.setQueue t (exec size t false s.queue (.loadNext carry op k vs))) := by
  have hexec : exec size t false s.queue (.loadNext carry op k vs) =
      (s.queue, .swing carry op k vs) := if_pos hlinked
  obtain ⟨hidle, hholds⟩ := (h.held t).keeps k (by rw [hpc]; rfl)
  rw [hexec]
  have hstays : Stays s.queue k (s.queue, .swing carry op k vs) :=
    ⟨⟨rfl, rfl, rfl⟩, .inl rfl, hlinked⟩
  exact h.stays hstays (by rw [hpc]; rfl) hidle ⟨Nat.le_of_lt hlinked, hholds⟩ rfl rfl rfl rfl rfl
    rfl h.memory

theorem Inv.take (h : Inv s) {carry : Bool} {op : Nat} {vs : List α}
    (hpc : s.pc t = .loadNext carry op k vs) (hunlinked : s.queue.last ≤ k)
    (hfree : ¬ s.Owned a) (hdeleted : s.domain.gone a = false) :
    Inv ({ s with fresh := Function.update s.fresh t (some a) }.setQueue t
      (exec size t false s.queue (.loadNext carry op k vs))) := by
  obtain ⟨hidle, hholds⟩ := (h.held t).keeps k (by rw [hpc]; rfl)
  have hfits : k ≤ s.queue.tail := h.fits_of hpc
  have hstays : Stays s.queue k (exec size t false s.queue (.loadNext carry op k vs)) := by
    have hexec : exec size t false s.queue (.loadNext carry op k vs) =
        if carry then (s.queue, .link carry op k (freshSegment t op vs.head?) vs.tail)
        else (s.queue, .link carry op k (freshSegment t op none) vs) :=
      if_neg (Nat.not_lt_of_le hunlinked)
    rw [hexec]
    cases carry <;> exact ⟨⟨rfl, rfl, rfl⟩, .inl rfl, hfits⟩
  exact h.stays hstays (by rw [hpc]; rfl) hidle
    ⟨Nat.le_trans hfits h.order.tail, hholds⟩ rfl rfl rfl rfl rfl rfl
    (h.memory.take hfree hdeleted)

theorem Inv.link (h : Inv s) {carry : Bool} {op : Nat} {seg : Segment α} {vs : List α}
    (hpc : s.pc t = .link carry op k seg vs) (htaken : s.fresh t = some a)
    (hunlinked : k = s.queue.last) :
    Inv
      ({ s with
          addr := Function.update s.addr (k + 1) a,
          birth := Function.update s.birth (k + 1) (s.domain.gen a),
          fresh := Function.update s.fresh t none }.setQueue t
        (exec size t false s.queue (.link carry op k seg vs))) := by
  obtain ⟨hidle, hholds⟩ := (h.held t).keeps k (by rw [hpc]; rfl)
  have hfits : k ≤ s.queue.tail := h.fits_of hpc
  subst hunlinked
  have hexec : exec size t false s.queue (.link carry op s.queue.last seg vs) =
      (s.queue.append op s.queue.last seg,
        if carry then .swingLast op s.queue.last else .swing carry op s.queue.last vs) :=
    if_pos rfl
  have hold : ∀ k ≤ s.queue.last, k ≠ s.queue.last + 1 := fun k hk => by omega
  have hnext : uses (if carry then Pc.swingLast op s.queue.last
      else .swing carry op s.queue.last vs) = some s.queue.last := by
    cases carry <;> rfl
  have hswings : swings (if carry then Pc.swingLast op s.queue.last
      else .swing carry op s.queue.last vs) = some s.queue.last := by
    cases carry <;> rfl
  rw [hexec]
  refine h.setQueue rfl rfl rfl (fun k hk => Function.update_of_ne (hold k hk) ..)
    (fun k hk => Function.update_of_ne (hold k hk) ..) (Nat.le_refl _) (Nat.le_succ _) ?_ ?_ hidle
    fun k' hk' => ?_
  · exact h.memory.link (Hazard.books_of_runs h.runs) htaken rfl rfl rfl rfl rfl rfl rfl rfl rfl
  · exact h.order.link hfits rfl rfl rfl hswings
  · obtain rfl := Option.some.inj (hnext.symm.trans hk')
    exact ⟨Nat.le_refl _, hholds⟩

theorem Inv.linkLost (h : Inv s) {carry : Bool} {op : Nat} {seg : Segment α} {vs : List α}
    (hpc : s.pc t = .link carry op k seg vs) (hlinked : k ≠ s.queue.last) :
    Inv ({ s with fresh := Function.update s.fresh t none }.setQueue t
      (exec size t false s.queue (.link carry op k seg vs))) := by
  obtain ⟨hidle, hholds⟩ := (h.held t).keeps k (by rw [hpc]; rfl)
  have hfits : k ≤ s.queue.tail := h.fits_of hpc
  have hlt : k < s.queue.last := Nat.lt_of_le_of_ne (Nat.le_trans hfits h.order.tail) hlinked
  have hexec : exec size t false s.queue (.link carry op k seg vs) =
      (s.queue, .swing carry op k ((seg.storage 0).toList ++ vs)) := if_neg hlinked
  have hstays : Stays s.queue k
      (s.queue, .swing carry op k ((seg.storage 0).toList ++ vs)) :=
    ⟨⟨rfl, rfl, rfl⟩, .inl rfl, hlt⟩
  rw [hexec]
  exact h.stays hstays (by rw [hpc]; rfl) hidle ⟨Nat.le_of_lt hlt, hholds⟩ rfl rfl rfl rfl rfl rfl
    h.memory.letGo

theorem Inv.swingHead (h : Inv s) {max : Option Nat} (hpc : s.pc t = .swingHead max k)
    (hfirst : s.queue.head = k) :
    Inv ({ s with retiring := Function.update s.retiring t (some k) }.setQueue t
      (exec size t false s.queue (.swingHead max k))) := by
  obtain ⟨hidle, -⟩ := (h.held t).keeps k (by rw [hpc]; rfl)
  have hlinked : k < s.queue.last := h.fits_of hpc
  have hexec : exec size t false s.queue (.swingHead max k) =
      ({ s.queue with head := k + 1 }, .protectHead max) :=
    congrArg (·, Pc.protectHead max) (if_pos hfirst)
  rw [hexec]
  refine h.setQueue rfl rfl rfl (fun _ _ => rfl) (fun _ _ => rfl) (Nat.le_refl _) (Nat.le_refl _)
    ?_ ?_ hidle fun k' hk' => ?_
  · exact h.memory.leave hfirst (Nat.le_of_lt hlinked) rfl rfl rfl rfl rfl rfl rfl rfl rfl
  · exact h.order.advance (by rw [hpc]; rfl) hlinked rfl rfl rfl
  · cases hk'

theorem Inv.swingHeadLost (h : Inv s) {max : Option Nat} (hpc : s.pc t = .swingHead max k)
    (hlater : s.queue.head ≠ k) :
    Inv (s.setQueue t (exec size t false s.queue (.swingHead max k))) := by
  obtain ⟨hidle, hholds⟩ := (h.held t).keeps k (by rw [hpc]; rfl)
  have hlinked : k < s.queue.last := h.fits_of hpc
  have hexec : exec size t false s.queue (.swingHead max k) = (s.queue, .protectHead max) :=
    congrArg (·, Pc.protectHead max) (if_neg hlater)
  have hstays : Stays s.queue k (s.queue, .protectHead max) :=
    ⟨⟨rfl, rfl, rfl⟩, .inr rfl, trivial⟩
  rw [hexec]
  exact h.stays hstays (by rw [hpc]; rfl) hidle ⟨Nat.le_of_lt hlinked, hholds⟩ rfl rfl rfl rfl rfl
    rfl h.memory

theorem Inv.step (h : Inv s) (hok : Guarded s t e) (hstep : Step size s t e s') : Inv s' := by
  cases hstep with
  | call c pc outside => exact h.call c pc outside
  | bind busy outside unbound =>
      have hnone : uses (s.pc t) = none := by
        cases hk : uses (s.pc t) with
        | none => rfl
        | some k =>
            obtain ⟨r, -, htls, -⟩ := ((h.held t).keeps k hk).2
            exact absurd (unbound.symm.trans htls) nofun
      exact h.enter hnone (.acquire t outside unbound) (fun _ => nofun) (fun _ _ _ _ => nofun)
        fun _ => nofun
  | protect a r pc outside bound retired =>
      refine h.enter (uses_of_source pc) (.protect t r a outside bound) (fun b hb => ?_)
        (fun _ _ _ _ => nofun) fun _ => nofun
      rw [← show a = b from Option.some.inj hb]
      exact pc
  | inside e d busy midway unfinished own hstep =>
      exact h.inside hok busy midway unfinished own hstep
  | obtained a p pc finished => exact h.obtained pc finished
  | run spurious k pc plain => exact h.run spurious pc plain
  | follow carry op k vs pc linked => exact h.follow pc linked
  | take carry op k vs a pc unlinked free deleted => exact h.take pc unlinked free deleted
  | link carry op k seg vs a pc taken unlinked => exact h.link pc taken unlinked
  | linkLost carry op k seg vs pc linked => exact h.linkLost pc linked
  | swingHead max k pc first => exact h.swingHead pc first
  | swingHeadLost max k pc later => exact h.swingHeadLost pc later
  | retire k r pc waiting outside bound => exact h.retire pc waiting outside bound
  | client e d pc foreign hstep => exact h.client hok pc foreign hstep

theorem inv_new : Inv (State.new : State α) := by
  refine ⟨?_, rfl, rfl, order_new, memory_new, fun t => Held.outside rfl fun k => nofun⟩
  have hnew : Hazard.Runs Hazard.Sound .new := .start rfl
  exact (hnew.step (.store 0 0 _)).step (.store 0 1 _)

/-- In a run in which the loads of `protect` are guarded, no thread has a segment that was
handed to its deleter. -/
theorem unused_of_guardedRuns {size : Nat} {s : State α} (h : Runs size Guarded s) : Safe s := by
  have hinv : Inv s := h.holds (fun hs => hs ▸ inv_new) fun _ ih hstep meets => ih.step meets hstep
  exact hinv.safe

/-- While no scan is under way every load is guarded. -/
theorem guarded_of_quiet (h : ∀ t, (s.domain.thread t).pc.reclaim = none) : Guarded s t e := by
  rintro a rfl p r i - - - -
  exact Hazard.covered_of_quiet h

end Uvent.Queue.Recycling
