import Uvent.Tasks.Frames
import Mathlib.Data.List.Perm.Subperm
import Mathlib.Data.List.Range

/-!
# No cancellation is lost

A frame that waits has seen the task uncancelled after it armed its hook.  So the
request comes later, finds the owner of the task and puts a kick into its queue,
and the kick runs the hook, if its walk along `next_` ends at the frame.  It does
not when the frame still points to a generator that has yielded, nor when the
frame is that of an I/O operation that was started and is not awaited.
-/

namespace Uvent.Tasks

open Uvent.Lib

/-! ## The walk of a kick -/

inductive Path (s : Task) : List Nat → Nat → Prop where
  | root : Path s [0] 0
  | step {f p : Nat} {l : List Nat} (hprev : s.prev f = some p) (hp : Path s l p) :
      Path s (f :: l) f

def Awaited (s : Task) (f : Nat) : Prop := ∃ l, Path s l f

section Walk

variable {s : Task} {f : Nat} {l l' : List Nat}

theorem Path.unique (hroot : s.prev 0 = none) (h : Path s l f) (h' : Path s l' f) : l = l' := by
  induction h generalizing l' with
  | root =>
      cases h' with
      | root => rfl
      | step hprev _ =>
          rw [hroot] at hprev
          simp at hprev
  | step hprev _ ih =>
      cases h' with
      | root =>
          rw [hroot] at hprev
          simp at hprev
      | step hprev' hp' =>
          obtain rfl := Option.some.inj (hprev.symm.trans hprev')
          rw [ih hp']

theorem Path.upper {x : Nat} (h : Path s l f) (hx : x ∈ l) :
    ∃ l', Path s l' x ∧ l'.length ≤ l.length := by
  induction h with
  | root =>
      obtain rfl := List.mem_singleton.mp hx
      exact ⟨[0], .root, Nat.le_refl _⟩
  | @step f p l hprev hp ih =>
      rcases List.mem_cons.mp hx with rfl | hmem
      · exact ⟨x :: l, .step hprev hp, Nat.le_refl _⟩
      · obtain ⟨l', hpath, hlen⟩ := ih hmem
        exact ⟨l', hpath, Nat.le_succ_of_le hlen⟩

theorem Path.nodup (hroot : s.prev 0 = none) (h : Path s l f) : l.Nodup := by
  induction h with
  | root => simp
  | @step f p l hprev hp ih =>
      refine List.nodup_cons.mpr ⟨fun hmem => ?_, ih⟩
      obtain ⟨l', hpath, hlen⟩ := hp.upper hmem
      have heq := Path.unique hroot (.step hprev hp) hpath
      rw [← heq, List.length_cons] at hlen
      omega

theorem Path.lt_created (hshape : Shape s) (h : Path s l f) (hf : (s.mode f).inside = true) :
    ∀ x ∈ l, x < s.created := by
  have hmade : ∀ g, (s.mode g).inside = true → g < s.created := by
    intro g hg
    refine hshape.lt_created fun hfresh => ?_
    rw [hfresh] at hg
    simp [Mode.inside] at hg
  induction h with
  | root =>
      intro x hx
      rw [List.mem_singleton.mp hx]
      exact hshape.rootMade
  | step hprev hp ih =>
      intro x hx
      rcases List.mem_cons.mp hx with rfl | hmem
      · exact hmade x hf
      · exact ih (by rw [(hshape.linked _ _ hf hprev).1]; rfl) x hmem

/-- The walk from the root comes by every frame inside the task that is awaited. -/
theorem Path.walk (hshape : Shape s) (h : Path s l f) (hf : (s.mode f).inside = true) (k : Nat) :
    s.leafFrom (k + l.length) 0 = s.leafFrom (k + 1) f := by
  induction h generalizing k with
  | root => rfl
  | @step f p l hprev hp ih =>
      obtain ⟨hmode, hnext⟩ := hshape.linked f p hf hprev
      have hup := ih (by rw [hmode]; rfl) (k + 1)
      rw [List.length_cons, show k + (l.length + 1) = k + 1 + l.length by omega, hup,
        Task.leafFrom, hnext]

/-- A kick finds the frame that is parked, when that is awaited and awaits nobody
itself. -/
theorem leaf_eq (hshape : Shape s) (hf : s.mode f = .parked) (hnext : s.next f = none)
    (hawaited : Awaited s f) : s.leafFrom s.created 0 = f := by
  obtain ⟨l, hpath⟩ := hawaited
  have hin : (s.mode f).inside = true := by rw [hf]; rfl
  have hsub : l ⊆ List.range s.created :=
    fun x hx => List.mem_range.mpr (hpath.lt_created hshape hin x hx)
  have hlen := ((hpath.nodup hshape.rooted).subperm hsub).length_le
  rw [List.length_range] at hlen
  obtain ⟨k, hk⟩ : ∃ k, s.created = k + l.length := ⟨s.created - l.length, by omega⟩
  rw [hk, hpath.walk hshape hin k, Task.leafFrom, hnext]

end Walk

/-! ## The flags -/

def Exposed (s : Task) : Prop :=
  (∃ f, s.mode f = .parked) ∨ ∃ f below, s.worker = .running f .sockPark below

def Coming (w : System) : Prop :=
  0 < w.shared.kicks ∨ w.shared.worker = .clear ∨ w.shared.worker = .hook ∨
    ∃ t pc, w.own t = .kick pc

structure Flags (w : System) : Prop where
  owned : w.shared.ownerTid = none → w.shared.worker = .shared ∨ w.shared.worker = .stamp
  pending : w.shared.kickPending = true → 0 < w.shared.kicks ∨ w.shared.worker = .clear ∨
    w.shared.worker = .shake .push ∨ ∃ t, w.own t = .kick .push
  coming : w.shared.requested = true → w.shared.done = false → Exposed w.shared → Coming w

/-- The condition: when a kick runs the hook, a frame that is parked points to no
other frame, and the root awaits it. -/
def Careful (w : System) : Prop :=
  w.shared.worker = .hook → ∀ f, w.shared.mode f = .parked →
    w.shared.next f = none ∧ Awaited w.shared f

def Worker.home : Worker → Bool
  | .loop | .running _ _ _ => true
  | _ => false

/-- A step of the owner that makes nothing wait that was not waiting, unless the
task is not cancelled. -/
structure Calm (s s' : Task) : Prop where
  requested : s'.requested = s.requested
  kicks : s'.kicks = s.kicks
  kickPending : s'.kickPending = s.kickPending
  ownerTid : s'.ownerTid = s.ownerTid
  done : s'.done = false → s.done = false
  home : s'.worker.home = true
  exposed : s.requested = true → Exposed s' → Exposed s

section Calm

variable {s s₁ s' : Task} {f g : Nat} {below : List Nat}

theorem Calm.refl (h : s.worker.home = true) : Calm s s := ⟨rfl, rfl, rfl, rfl, id, h, fun _ => id⟩

theorem Calm.trans (h : Calm s s₁) (h' : Calm s₁ s') : Calm s s' :=
  ⟨h'.requested.trans h.requested, h'.kicks.trans h.kicks, h'.kickPending.trans h.kickPending,
    h'.ownerTid.trans h.ownerTid, fun hd => h.done (h'.done hd), h'.home,
    fun hr he => h.exposed hr (h'.exposed (h.requested.trans hr) he)⟩

theorem Calm.setMode {m : Mode} (h : Calm s s₁) (hm : m ≠ .parked) : Calm s (s₁.setMode f m) := by
  refine h.trans ⟨rfl, rfl, rfl, rfl, id, h.home, fun _ => Or.imp_left ?_⟩
  rintro ⟨x, hx⟩
  by_cases hxf : x = f
  · rw [hxf] at hx
    exact absurd ((Function.update_self ..).symm.trans hx) hm
  · exact ⟨x, (Function.update_of_ne hxf ..).symm.trans hx⟩

theorem Calm.setNext (h : Calm s s₁) (g : Option Nat) : Calm s (s₁.setNext f g) :=
  h.trans ⟨rfl, rfl, rfl, rfl, id, h.home, fun _ => id⟩

theorem Calm.setPrev (h : Calm s s₁) (g : Option Nat) : Calm s (s₁.setPrev f g) :=
  h.trans ⟨rfl, rfl, rfl, rfl, id, h.home, fun _ => id⟩

theorem Calm.setHook (h : Calm s s₁) (armed : Bool) : Calm s (s₁.setHook f armed) :=
  h.trans ⟨rfl, rfl, rfl, rfl, id, h.home, fun _ => id⟩

theorem Calm.setAttached (h : Calm s s₁) (attached : Bool) : Calm s (s₁.setAttached f attached) :=
  h.trans ⟨rfl, rfl, rfl, rfl, id, h.home, fun _ => id⟩

theorem Calm.grow (h : Calm s s₁) (k : Nat) : Calm s { s₁ with created := k } :=
  h.trans ⟨rfl, rfl, rfl, rfl, id, h.home, fun _ => id⟩

theorem Calm.goto {worker : Worker} (h : Calm s s₁) (hhome : worker.home = true)
    (hpark : ∀ f below, worker ≠ .running f .sockPark below) :
    Calm s { s₁ with worker := worker } := by
  refine h.trans ⟨rfl, rfl, rfl, rfl, id, hhome, fun _ => ?_⟩
  rintro (hx | ⟨x, below, hw⟩)
  · exact .inl hx
  · exact absurd hw (hpark x below)

theorem Calm.leave (h : Calm s s₁) (below : List Nat) : Calm s (s₁.leave below) := by
  cases below with
  | nil => exact h.goto rfl (by simp)
  | cons b below => exact (h.setMode (f := b) (m := .running) (by simp)).goto rfl (by simp)

theorem Calm.handOver (h : Calm s s₁) (deep : Bool) (g : Nat) (below : List Nat) :
    Calm s (s₁.handOver deep g below) := by
  unfold Task.handOver
  split
  · exact (h.setMode (by simp)).leave below
  · exact (h.setMode (by simp)).goto rfl (by simp)

/-- A wait lets the frame go; it was exposed before, or the task is not
cancelled, or its waiter has been fired. -/
theorem Calm.suspend (h : Calm s s₁)
    (hpark : s₁.attached f = true → s.requested = true → Exposed s) :
    Calm s (s₁.suspend f below) := by
  unfold Task.suspend
  refine Calm.leave ?_ below
  by_cases ha : s₁.attached f = true
  · exact ⟨h.requested, h.kicks, h.kickPending, h.ownerTid, h.done, h.home,
      fun hr _ => hpark ha hr⟩
  · rw [if_neg ha]
    exact h.setMode (by simp)

theorem Calm.finish (h : s.worker.home = true) (f : Nat) (deep : Bool) (below : List Nat) :
    Calm s (s.finish f deep below) := by
  unfold Task.finish
  split
  · exact (((((Calm.refl h).setPrev none).setNext none).setMode (by simp)).handOver deep _ below)
  · refine Calm.leave ?_ below
    have hmode := (Calm.refl h).setMode (f := f) (m := .finished) (by simp)
    refine ⟨rfl, rfl, rfl, rfl, fun hd => ?_, h, hmode.exposed⟩
    exact (Bool.or_eq_false_iff.mp hd).1

/-- What the owner does between two kicks. -/
theorem WorkerStep.calm (hstep : WorkerStep s s') (h : s.worker.home = true) :
    Calm s s' ∨ s.worker = .loop ∧ 0 < s.kicks ∧
      s' = { s with kicks := s.kicks - 1, worker := .clear } := by
  have hrefl : Calm s s := .refl h
  cases hstep with
  | dequeue hw | stamp _ hw | probe hw | shake _ _ hw | clear hw | hook hw =>
      rw [hw] at h
      simp [Worker.home] at h
  | pop hw hk => exact .inr ⟨hw, hk, rfl⟩
  | resume f hw hf => exact .inl (((hrefl.setHook _).setMode (by simp)).goto rfl (by simp))
  | call f below deep hw =>
      exact .inl (((((hrefl.setNext _).setPrev _).setMode (by simp)).grow _).handOver deep _ below)
  | finish f below deep hw => exact .inl (.finish h f deep below)
  | coYield f p below deep hw hp =>
      exact .inl ((hrefl.setMode (by simp)).handOver deep p below)
  | again f g below deep hw hg =>
      exact .inl ((((hrefl.setNext _).setPrev _).setMode (by simp)).handOver deep g below)
  | startDeferred f below hw =>
      have hcalling := hrefl.setMode (f := f) (m := .calling) (by simp)
      have hrunning := hcalling.setMode (f := s.created) (m := .running) (by simp)
      exact .inl ((hrunning.grow (s.created + 1)).goto rfl (by simp))
  | awaitDeferred f g below hw hg hroot hprev =>
      exact .inl ((((hrefl.setNext _).setPrev _).setMode (by simp)).leave below)
  | yield f below hw => exact .inl ((hrefl.setMode (by simp)).leave below)
  | block f below hw => exact .inl ((hrefl.setMode (by simp)).leave below)
  | wait f below point hw hpoint =>
      refine .inl (hrefl.goto rfl fun x below' hrun => ?_)
      simp only [Worker.running.injEq] at hrun
      rcases hpoint with rfl | rfl <;> simp at hrun
  | check f below hw =>
      refine .inl (hrefl.goto rfl fun x below' hrun => ?_)
      simp only [Worker.running.injEq] at hrun
      split at hrun <;> simp at hrun
  | attach f below hw => exact .inl ((hrefl.setAttached _).goto rfl (by simp))
  | ready f below hw =>
      left
      split
      · exact (hrefl.setAttached _).goto rfl (by simp)
      · rename_i ha
        exact hrefl.suspend fun habs => absurd habs ha
  | arm f below hw =>
      left
      split
      · exact (hrefl.setHook _).goto rfl (by simp)
      · rename_i hr
        exact (hrefl.setHook _).suspend fun _ habs => absurd habs hr
  | detach f below hw =>
      left
      split
      · exact ((hrefl.setAttached _).setHook _).goto rfl (by simp)
      · rename_i ha
        exact hrefl.suspend fun habs => absurd habs ha
  | sockArm f below hw =>
      left
      split
      · exact ((hrefl.setHook _).setMode (by simp)).leave below
      · rename_i hr
        exact ⟨rfl, rfl, rfl, rfl, id, rfl, fun habs => absurd habs hr⟩
  | sockPark f below parked hw =>
      exact .inl ((hrefl.setAttached _).suspend fun _ _ => .inr ⟨f, below, hw⟩)

end Calm

/-! ## The flags through a step -/

section Flags

variable {w : System} {s : Task} {f : Nat}

theorem Framed.wake (h : Framed s) (hf : s.mode f = .blocked) : Framed (s.setMode f .queued) := by
  refine ⟨h.shape.switch (by rw [hf]; rfl) (by rw [hf]; simp) (by simp) (by simp), ?_, ?_, ?_,
    h.driven.socket⟩
  · intro x point below hw
    obtain ⟨hx, hbelow⟩ := h.driven.active x point below hw
    have hxf : x ≠ f := by
      rintro rfl
      exact absurd (hf.symm.trans hx) (by simp)
    exact ⟨(Function.update_of_ne hxf ..).trans hx, hbelow.setMode (by rw [hf]; simp)⟩
  · intro hearly
    exact absurd (hf.symm.trans (h.driven.early hearly f)) (by simp)
  · intro x hx
    refine (h.driven.held x hx).imp_left fun hpark => ?_
    have hxf : x ≠ f := by
      rintro rfl
      exact absurd (hf.symm.trans hpark) (by simp)
    exact (Function.update_of_ne hxf ..).trans hpark

theorem Framed.not_exposed (h : Framed s) (hearly : s.worker.early = true) : ¬ Exposed s := by
  rintro (⟨f, hf⟩ | ⟨f, below, hw⟩)
  · exact absurd ((h.driven.early hearly f).symm.trans hf) (by simp)
  · rw [hw] at hearly
    simp [Worker.early] at hearly

theorem Framed.not_exposed_spawned (h : Framed s) (hearly : s.worker.early = true) :
    ¬ Exposed { s.setMode 0 .queued with worker := .loop } := by
  rintro (⟨f, hf⟩ | ⟨f, below, hw⟩)
  · have hf' : Function.update s.mode 0 .queued f = .parked := hf
    by_cases hf0 : f = 0
    · rw [hf0, Function.update_self] at hf'
      simp at hf'
    · rw [Function.update_of_ne hf0, h.driven.early hearly f] at hf'
      simp at hf'
  · simp at hw

theorem Flags.calm {s' : Task} (h : Flags w) (hhome : w.shared.worker.home = true)
    (hcalm : Calm w.shared s') : Flags { w with shared := s' } := by
  refine ⟨fun howner => ?_, fun hpending => ?_, fun hr hd he => ?_⟩
  · rcases h.owned (hcalm.ownerTid.symm.trans howner) with hw | hw <;>
      simp [hw, Worker.home] at hhome
  · rcases h.pending (hcalm.kickPending.symm.trans hpending) with hk | hw | hw | ht
    · exact .inl (hcalm.kicks.symm ▸ hk)
    · simp [hw, Worker.home] at hhome
    · simp [hw, Worker.home] at hhome
    · exact .inr (.inr (.inr ht))
  · have hr' : w.shared.requested = true := hcalm.requested.symm.trans hr
    rcases h.coming hr' (hcalm.done hd) (hcalm.exposed hr' he) with hk | hw | hw | ht
    · exact .inl (hcalm.kicks.symm ▸ hk)
    · simp [hw, Worker.home] at hhome
    · simp [hw, Worker.home] at hhome
    · exact .inr (.inr (.inr ht))

theorem Flags.frames {s' : Task} (h : Flags w) (hreq : s'.requested = w.shared.requested)
    (howner : s'.ownerTid = w.shared.ownerTid) (hpending : s'.kickPending = w.shared.kickPending)
    (hkicks : s'.kicks = w.shared.kicks) (hdone : s'.done = w.shared.done)
    (hworker : s'.worker = w.shared.worker) (hmode : ∀ f, s'.mode f = .parked →
      w.shared.mode f = .parked) : Flags { w with shared := s' } := by
  refine ⟨?_, ?_, fun hr hd he => ?_⟩
  · rw [howner, hworker]
    exact h.owned
  · rw [hpending, hkicks, hworker]
    exact h.pending
  · have hexposed : Exposed w.shared :=
      he.imp (fun ⟨f, hf⟩ => ⟨f, hmode f hf⟩) fun ⟨f, below, hw⟩ => ⟨f, below, hworker ▸ hw⟩
    have hcoming := h.coming (hreq ▸ hr) (hdone ▸ hd) hexposed
    unfold Coming at hcoming ⊢
    rw [hkicks, hworker]
    exact hcoming

theorem setMode_parked {m : Mode} (hm : m ≠ .parked) (g : Nat)
    (hg : (s.setMode f m).mode g = .parked) : s.mode g = .parked := by
  by_cases hgf : g = f
  · rw [hgf] at hg
    exact absurd ((Function.update_self ..).symm.trans hg) hm
  · exact (Function.update_of_ne hgf ..).symm.trans hg

/-- A kick that meets the condition leaves nothing parked. -/
theorem Framed.processKick_parked (h : Framed s) (hdone : s.done = false)
    (hcare : ∀ f, s.mode f = .parked → s.next f = none ∧ Awaited s f) :
    ∀ f, s.processKick.mode f ≠ .parked := by
  intro f hf
  have hs : s.processKick.mode = (s.runCancelHook (s.leafFrom s.created 0)).mode := by
    unfold Task.processKick
    rw [hdone]
    rfl
  rw [hs] at hf
  -- the hook parks nobody, so `f` was parked and the walk ended at it
  have hpark : s.mode f = .parked := by
    unfold Task.runCancelHook at hf
    split at hf
    · exact setMode_parked (by simp) f hf
    · exact hf
  obtain ⟨hnext, hawaited⟩ := hcare f hpark
  obtain ⟨hhook, hattached⟩ := h.shape.armed f hpark
  rw [leaf_eq h.shape hpark hnext hawaited, Task.runCancelHook, hhook, hattached] at hf
  exact absurd ((Function.update_self ..).symm.trans hf) (by simp)

/-- A kick that is pending is in the queue or about to be put there. -/
theorem Flags.pushed (h : Flags w) (hclear : w.shared.worker ≠ .clear)
    (hshake : w.shared.worker ≠ .shake .push) (hp : w.shared.kickPending = true) :
    0 < w.shared.kicks ∨ ∃ t, w.own t = .kick .push := by
  rcases h.pending hp with hk | hw | hw | ht
  · exact .inl hk
  · exact absurd hw hclear
  · exact absurd hw hshake
  · exact .inr ht

/-- A kick that the spawn itself gives, while it has the root. -/
theorem Flags.shake (h : Flags w) (hframed : Framed w.shared) {pc : KickPc} {alive : Bool}
    (hw : w.shared.worker = .shake pc) :
    Flags { w with shared := match w.shared.kick alive pc with
      | (s', some pc') => { s' with worker := .shake pc' }
      | (s', none) => { s'.setMode 0 .queued with worker := .loop } } := by
  have hearly : w.shared.worker.early = true := by rw [hw]; rfl
  have hmode := hframed.driven.early hearly
  have hspawned := hframed.not_exposed_spawned hearly
  have howner : w.shared.ownerTid ≠ none := by
    intro hnone
    simpa [hw] using h.owned hnone
  have hfresh : ∀ pc', ¬ Exposed { w.shared with worker := .shake pc' } :=
    fun pc' => (hframed.spawning hearly (.shake pc') rfl).not_exposed rfl
  cases pc with
  | load =>
      have hload : w.shared.kick alive .load = (w.shared, some .flag) := by
        unfold Task.kick
        rw [if_neg (by simpa using howner)]
      rw [hload]
      refine ⟨fun hnone => absurd hnone howner, fun hp => ?_, fun _ _ he => absurd he (hfresh _)⟩
      simpa [hw] using h.pending hp
  | flag =>
      by_cases hp : w.shared.kickPending = true
      · have hflag : w.shared.kick alive .flag =
            ({ w.shared with kickPending := true }, none) := by simp [Task.kick, hp]
        rw [hflag]
        refine ⟨fun hnone => absurd hnone howner, fun _ => ?_, fun _ _ he => absurd he hspawned⟩
        exact (h.pushed (by simp [hw]) (by simp [hw]) hp).imp_right fun ht => .inr (.inr ht)
      · have hflag : w.shared.kick alive .flag =
            ({ w.shared with kickPending := true }, some .push) := by simp [Task.kick, hp]
        rw [hflag]
        exact ⟨fun hnone => absurd hnone howner, fun _ => .inr (.inr (.inl rfl)),
          fun _ _ he => absurd he (hfresh .push)⟩
  | push =>
      cases alive with
      | true =>
          exact ⟨fun hnone => absurd hnone howner, fun _ => .inl (Nat.succ_pos _),
            fun _ _ he => absurd he hspawned⟩
      | false =>
          exact ⟨fun hnone => absurd hnone howner, fun hp => Bool.noConfusion hp,
            fun _ _ he => absurd he hspawned⟩

theorem Flags.worker {s' : Task} (h : Flags w) (hframed : Framed w.shared) (hcare : Careful w)
    (hstep : WorkerStep w.shared s') : Flags { w with shared := s' } := by
  by_cases hhome : w.shared.worker.home = true
  · rcases hstep.calm hhome with hcalm | ⟨hw, hk, rfl⟩
    · exact h.calm hhome hcalm
    · refine ⟨fun hnone => ?_, fun _ => .inr (.inl rfl), fun _ _ _ => .inr (.inl rfl)⟩
      simpa [hw] using h.owned hnone
  · cases hstep with
    | dequeue hw =>
        have hearly : w.shared.worker.early = true := by rw [hw]; rfl
        have hframed' := hframed.spawning hearly .stamp rfl
        refine ⟨fun _ => .inr rfl, fun hp => ?_, fun _ _ he => absurd he (hframed'.not_exposed rfl)⟩
        simpa [hw] using h.pending hp
    | stamp tid hw =>
        have hearly : w.shared.worker.early = true := by rw [hw]; rfl
        have hframed' := hframed.spawning hearly .probe rfl
        refine ⟨by simp, fun hp => ?_, fun _ _ he => absurd he (hframed'.not_exposed rfl)⟩
        simpa [hw] using h.pending hp
    | probe hw =>
        have hearly : w.shared.worker.early = true := by rw [hw]; rfl
        have howner : w.shared.ownerTid ≠ none := by
          intro hnone
          simpa [hw] using h.owned hnone
        split
        · have hframed' := hframed.spawning hearly (.shake .load) rfl
          refine ⟨fun hnone => absurd hnone howner, fun hp => ?_,
            fun _ _ he => absurd he (hframed'.not_exposed rfl)⟩
          simpa [hw] using h.pending hp
        · refine ⟨fun hnone => absurd hnone howner, fun hp => ?_,
            fun _ _ he => absurd he (hframed.not_exposed_spawned hearly)⟩
          exact (h.pushed (by simp [hw]) (by simp [hw]) hp).imp_right fun ht => .inr (.inr ht)
    | shake pc alive hw hdone => exact h.shake hframed hw
    | clear hw =>
        refine ⟨fun hnone => ?_, by simp, fun _ _ _ => .inr (.inr (.inl rfl))⟩
        simpa [hw] using h.owned hnone
    | hook hw =>
        have hrest : w.shared.processKick.requested = w.shared.requested ∧
            w.shared.processKick.ownerTid = w.shared.ownerTid ∧
            w.shared.processKick.kickPending = w.shared.kickPending ∧
            w.shared.processKick.kicks = w.shared.kicks ∧
            w.shared.processKick.done = w.shared.done := by
          unfold Task.processKick Task.runCancelHook
          split <;> [skip; split] <;> exact ⟨rfl, rfl, rfl, rfl, rfl⟩
        obtain ⟨-, howner, hpending, hkicks, hdone⟩ := hrest
        refine ⟨fun hnone => ?_, fun hp => ?_, fun _ hd he => ?_⟩
        · rw [howner] at hnone
          simpa [hw] using h.owned hnone
        · rw [hpending] at hp
          rw [hkicks]
          exact (h.pushed (by simp [hw]) (by simp [hw]) hp).imp_right fun ht => .inr (.inr ht)
        · rw [hdone] at hd
          rcases he with ⟨f, hf⟩ | ⟨f, below, hrun⟩
          · exact absurd hf (hframed.processKick_parked hd (hcare hw) f)
          · simp [Task.processKick] at hrun
    | pop hw | resume _ hw | call _ _ _ hw | finish _ _ _ hw | coYield _ _ _ _ hw
    | again _ _ _ _ hw | startDeferred _ _ hw | awaitDeferred _ _ _ hw | yield _ _ hw
    | block _ _ hw | wait _ _ _ hw | check _ _ hw | attach _ _ hw | ready _ _ hw | arm _ _ hw
    | detach _ _ hw | sockArm _ _ hw | sockPark _ _ _ hw => simp [hw, Worker.home] at hhome

theorem update_push {own : Nat → Requester} {t : Nat} {r : Requester} (ht : own t ≠ .kick .push)
    (h : ∃ t', own t' = .kick .push) : ∃ t', Function.update own t r t' = .kick .push := by
  obtain ⟨t', ht'⟩ := h
  refine ⟨t', (Function.update_of_ne ?_ ..).trans ht'⟩
  rintro rfl
  exact ht ht'

theorem Flags.request (h : Flags w) {t : Nat} (ht : w.own t = .idle) :
    Flags ⟨{ w.shared with requested := true },
      Function.update w.own t (if w.shared.requested then .idle else .kick .load)⟩ := by
  refine ⟨h.owned, fun hp => ?_, fun _ hd he => ?_⟩
  · rcases h.pending hp with hk | hw | hw | hpush
    · exact .inl hk
    · exact .inr (.inl hw)
    · exact .inr (.inr (.inl hw))
    · exact .inr (.inr (.inr (update_push (by simp [ht]) hpush)))
  · by_cases hr : w.shared.requested = true
    · have hown : Function.update w.own t (if w.shared.requested then .idle else .kick .load) =
          w.own := by
        rw [if_pos hr, ← ht, Function.update_eq_self]
      rw [hown]
      exact h.coming hr hd he
    · rw [if_neg hr]
      exact .inr (.inr (.inr ⟨t, .load, Function.update_self ..⟩))

theorem Flags.kick (h : Flags w) (hframed : Framed w.shared) {t : Nat} {pc : KickPc} {alive : Bool}
    (ht : w.own t = .kick pc) (hdone : alive = false → w.shared.done) :
    Flags ⟨(w.shared.kick alive pc).1,
      Function.update w.own t (.ofKick (w.shared.kick alive pc).2)⟩ := by
  have hself : ∀ {l : Nat → Requester} {pc' : KickPc},
      ∃ t' pc'', Function.update l t (Requester.kick pc') t' = .kick pc'' :=
    ⟨t, _, Function.update_self ..⟩
  cases pc with
  | load =>
      refine ⟨h.owned, fun hp => ?_, fun _ _ he => ?_⟩
      · rcases h.pending hp with hk | hw | hw | hpush
        · exact .inl hk
        · exact .inr (.inl hw)
        · exact .inr (.inr (.inl hw))
        · exact .inr (.inr (.inr (update_push (by simp [ht]) hpush)))
      · -- a task without an owner has not been queued, so nothing of it waits
        by_cases howner : w.shared.ownerTid = none
        · have hearly : w.shared.worker.early = true := by
            rcases h.owned howner with hw | hw <;> rw [hw] <;> rfl
          exact absurd he (hframed.not_exposed hearly)
        · refine .inr (.inr (.inr ?_))
          have hflag : (w.shared.kick alive .load).2 = some .flag := if_neg (by simpa using howner)
          rw [hflag]
          exact hself
  | flag =>
      by_cases hp : w.shared.kickPending = true
      · have hidle : (w.shared.kick alive .flag).2 = none := if_pos hp
        have hpush : (∃ t', w.own t' = .kick .push) →
            ∃ t', Function.update w.own t (.ofKick (w.shared.kick alive .flag).2) t' =
              .kick .push := update_push (by simp [ht])
        refine ⟨h.owned, fun _ => ?_, fun _ _ he => ?_⟩
        · exact (h.pending hp).imp_right (.imp_right (.imp_right hpush))
        · rcases h.pending hp with hk | hw | hw | hthread
          · exact .inl hk
          · exact .inr (.inl hw)
          · have hearly : (w.shared.kick alive .flag).1.worker.early = true := by
              rw [kick_worker, hw]
              rfl
            exact absurd he ((hframed.kick alive .flag).not_exposed hearly)
          · obtain ⟨t', ht'⟩ := hpush hthread
            exact .inr (.inr (.inr ⟨t', .push, ht'⟩))
      · have hnext : (w.shared.kick alive .flag).2 = some .push := if_neg hp
        rw [hnext]
        exact ⟨h.owned, fun _ => .inr (.inr (.inr ⟨t, Function.update_self ..⟩)),
          fun _ _ _ => .inr (.inr (.inr hself))⟩
  | push =>
      cases alive with
      | true =>
          exact ⟨h.owned, fun _ => .inl (Nat.succ_pos _), fun _ _ _ => .inl (Nat.succ_pos _)⟩
      | false =>
          refine ⟨h.owned, fun hp => Bool.noConfusion hp, fun _ hd => ?_⟩
          exact absurd ((hdone rfl).symm.trans hd) (by simp)

end Flags

/-! ## Runs -/

structure Tended (w : System) : Prop where
  framed : Framed w.shared
  flags : Flags w

theorem Tended.start (tid : Option Nat) (requested : Bool) :
    Tended ⟨.new tid requested, fun _ => .idle⟩ := by
  have hmode : ∀ f, (Task.new tid requested).mode f = .queued ∧ tid.isSome = true ∧ f = 0 ∨
      (Task.new tid requested).mode f = .fresh := by
    intro f
    by_cases hf : f = 0 ∧ tid.isSome = true
    · exact .inl ⟨if_pos hf, hf.2, hf.1⟩
    · exact .inr (if_neg hf)
  have hpark : ∀ f, (Task.new tid requested).mode f ≠ .parked := by
    intro f
    rcases hmode f with ⟨hf, -⟩ | hf <;> simp [hf]
  have hrun : ∀ f point below, (Task.new tid requested).worker ≠ .running f point below := by
    intro f point below
    unfold Task.new
    dsimp only
    split <;> simp
  refine ⟨⟨⟨?_, rfl, ?_, Nat.one_pos, ?_, fun f hf => absurd hf (hpark f)⟩,
    ⟨fun f point below hw => absurd hw (hrun f point below), ?_, fun f hf => Bool.noConfusion hf,
      fun f below hw => absurd hw (hrun f _ below)⟩⟩, ?_, fun hp => Bool.noConfusion hp, ?_⟩
  · exact fun c p _ hprev => absurd hprev (by simp [Task.new])
  · rcases hmode 0 with ⟨hf, -⟩ | hf <;> simp [hf]
  · intro f hf
    have hlt : 1 ≤ f := hf
    refine ⟨(hmode f).resolve_left fun h => ?_, rfl⟩
    omega
  · intro hearly f
    refine (hmode f).resolve_left fun ⟨_, hsome, _⟩ => ?_
    simp [Task.new, hsome, Worker.early] at hearly
  · intro hnone
    have htid : tid = none := hnone
    subst htid
    exact .inl rfl
  · rintro - - (⟨f, hf⟩ | ⟨f, below, hw⟩)
    · exact absurd hf (hpark f)
    · exact absurd hw (hrun f _ below)

theorem Tended.step {w w' : System} (h : Tended w) (hcare : Careful w) (hstep : Step w w') :
    Tended w' := by
  cases hstep with
  | worker hstep => exact ⟨h.framed.step hstep, h.flags.worker h.framed hcare hstep⟩
  | fire f hf =>
      refine ⟨h.framed.fire hf, ?_⟩
      split
      · exact h.flags.frames rfl rfl rfl rfl rfl rfl (setMode_parked (by simp))
      · exact h.flags.frames rfl rfl rfl rfl rfl rfl fun _ hx => hx
  | wake f hf =>
      exact ⟨h.framed.wake hf,
        h.flags.frames rfl rfl rfl rfl rfl rfl (setMode_parked (by simp))⟩
  | request t ht =>
      refine ⟨⟨?_, ?_⟩, h.flags.request ht⟩
      · exact ⟨h.framed.shape.linked, h.framed.shape.rooted, h.framed.shape.rootCode,
          h.framed.shape.rootMade, h.framed.shape.bound, h.framed.shape.armed⟩
      · exact ⟨fun f point below hw => ⟨(h.framed.driven.active f point below hw).1,
          (h.framed.driven.active f point below hw).2.nodup,
          (h.framed.driven.active f point below hw).2.calling⟩, h.framed.driven.early,
          h.framed.driven.held, h.framed.driven.socket⟩
  | kick t pc alive ht hdone => exact ⟨h.framed.kick alive pc, h.flags.kick h.framed ht hdone⟩

theorem tended_of_runs {w : System} (h : Runs Careful w) : Tended w := by
  induction h with
  | start tid requested => exact .start tid requested
  | step _ meets hstep ih => exact ih.step meets hstep

/-- In every run in which the kicks that run a hook find the parked frame awaited by
the root and pointing to nobody, no cancellation is lost. -/
theorem delivered_of_careful {w : System} (h : Runs Careful w) : Delivered w := by
  intro hquiet hreq hdone f hf
  rcases (tended_of_runs h).flags.coming hreq hdone (.inl ⟨f, hf⟩) with hk | hw | hw | ⟨t, pc, ht⟩
  · exact absurd hquiet.kicks (by omega)
  · exact absurd (hquiet.worker.symm.trans hw) (by simp)
  · exact absurd (hquiet.worker.symm.trans hw) (by simp)
  · exact absurd ((hquiet.threads t).symm.trans ht) (by simp)

theorem careful_of_root {w : System} (hmode : ∀ f, w.shared.mode (f + 1) ≠ .parked)
    (hnext : w.shared.next 0 = none) : Careful w := by
  intro _ f hf
  cases f with
  | zero => exact ⟨hnext, [0], .root⟩
  | succ f => exact absurd hf (hmode f)

/-- The root parks, is cancelled, comes back and waits for something that cannot be
cancelled. -/
theorem cancelled_delivered :
    ∃ w, Runs Careful w ∧ Quiet w ∧ w.shared.requested = true ∧ w.shared.done = false ∧
      ∀ f, w.shared.mode f ≠ .parked := by
  have h0 : Runs Careful ⟨.new (some 0) false, fun _ => .idle⟩ := .start _ _
  have h1 := h0.step Worker.noConfusion (.worker (.resume 0 rfl rfl))
  have h2 := h1.step Worker.noConfusion (.worker (.wait 0 [] .check rfl (.inl rfl)))
  have h3 := h2.step Worker.noConfusion (.worker (.check 0 [] rfl))
  have h4 := h3.step Worker.noConfusion (.worker (.attach 0 [] rfl))
  have h5 := h4.step Worker.noConfusion (.worker (.arm 0 [] rfl))
  have h6 := h5.step Worker.noConfusion (.request 0 rfl)
  have h7 := h6.step Worker.noConfusion (.kick 0 .load true rfl (by simp))
  have h8 := h7.step Worker.noConfusion (.kick 0 .flag true rfl (by simp))
  have h9 := h8.step Worker.noConfusion (.kick 0 .push true rfl (by simp))
  have h10 := h9.step Worker.noConfusion (.worker (.pop rfl (by decide)))
  have h11 := h10.step Worker.noConfusion (.worker (.clear rfl))
  have h12 := h11.step (careful_of_root (fun _ => Mode.noConfusion) rfl) (.worker (.hook rfl))
  have h13 := h12.step Worker.noConfusion (.worker (.resume 0 rfl rfl))
  have h14 := h13.step Worker.noConfusion (.worker (.block 0 [] rfl))
  have hshape : ∀ w, Runs Careful w → Quiet w → w.shared.requested = true →
      w.shared.done = false → ∃ w, Runs Careful w ∧ Quiet w ∧ w.shared.requested = true ∧
        w.shared.done = false ∧ ∀ f, w.shared.mode f ≠ .parked :=
    fun w h hquiet hr hd => ⟨w, h, hquiet, hr, hd, delivered_of_careful h hquiet hr hd⟩
  refine hshape _ h14 ⟨fun t => ?_, rfl, rfl, fun f => ?_⟩ rfl rfl
  · cases t with
    | zero => rfl
    | succ t => rfl
  · cases f with
    | zero => exact Mode.noConfusion
    | succ f => exact Mode.noConfusion

/-- The root has a value of a generator that is not at its end, parks and is
cancelled: the kick goes to the generator. -/
theorem yielded_not_delivered : ∃ w, Runs (fun _ => True) w ∧ ¬ Delivered w := by
  have h0 : Runs (fun _ => True) ⟨.new (some 0) false, fun _ => .idle⟩ := .start _ _
  have h1 := h0.step trivial (.worker (.resume 0 rfl rfl))
  have h2 := h1.step trivial (.worker (.call 0 [] false rfl))
  have h3 := h2.step trivial (.worker (.coYield 1 0 [] false rfl rfl))
  have h4 := h3.step trivial (.worker (.wait 0 [] .check rfl (.inl rfl)))
  have h5 := h4.step trivial (.worker (.check 0 [] rfl))
  have h6 := h5.step trivial (.worker (.attach 0 [] rfl))
  have h7 := h6.step trivial (.worker (.arm 0 [] rfl))
  have h8 := h7.step trivial (.request 0 rfl)
  have h9 := h8.step trivial (.kick 0 .load true rfl (by simp))
  have h10 := h9.step trivial (.kick 0 .flag true rfl (by simp))
  have h11 := h10.step trivial (.kick 0 .push true rfl (by simp))
  have h12 := h11.step trivial (.worker (.pop rfl (by decide)))
  have h13 := h12.step trivial (.worker (.clear rfl))
  have h14 := h13.step trivial (.worker (.hook rfl))
  refine ⟨_, h14, fun h => h ⟨fun t => ?_, rfl, rfl, fun f => ?_⟩ rfl rfl 0 rfl⟩
  · cases t with
    | zero => rfl
    | succ t => rfl
  · cases f with
    | zero => exact Mode.noConfusion
    | succ f => cases f with
      | zero => exact Mode.noConfusion
      | succ f => exact Mode.noConfusion

end Uvent.Tasks
