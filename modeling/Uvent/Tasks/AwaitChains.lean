import Uvent.Tasks.Coroutines

/-!
# Chains of coroutines that await one another

The coroutines of a task that have not ended form a chain, from the innermost one to the root,
each awaited by the next one or inside its call.  With what they do behind their awaits they
are the stack of callers of `Uvent.Lib.CallStack`, and every step of the worker is none or one
step there.
-/

namespace Uvent.Tasks.Coroutines

open Uvent.Lib

variable {S E V W A : Type}

/-- The coroutines `ps` are waiting for `h` and for one another, and go on with `stack`; those
of `callers` are inside the call of an eager coroutine. -/
inductive Held (frames : Handle → Frame S E V W A) :
    Handle → List Handle → List (Except E V → S) → List Handle → Prop where
  | root {h : Handle} (prev : (frames h).prev = none) (task : (frames h).task = true) :
      Held frames h [] [] []
  | awaited {h p : Handle} {ps : List Handle} {next : Except E V → S}
      {stack : List (Except E V → S)} {callers : List Handle}
      (pc : (frames p).pc = .awaiting h next)
      (forth : (frames p).next = some h) (clear : (frames p).pendingDestroy = none)
      (prev : (frames h).prev = some p) (task : (frames h).task = false)
      (rest : Held frames p ps stack callers) : Held frames h (p :: ps) (next :: stack) callers
  | started {h p : Handle} {ps : List Handle} {next : Except E V → S}
      {stack : List (Except E V → S)} {callers : List Handle}
      (pc : (frames p).pc = .starting h next)
      (clear : (frames p).pendingDestroy = none) (prev : (frames h).prev = none)
      (task : (frames h).task = false) (rest : Held frames p ps stack callers) :
      Held frames h (p :: ps) (next :: stack) (p :: callers)

section Held

variable {frames frames' : Handle → Frame S E V W A} {h p : Handle} {ps : List Handle}
  {stack : List (Except E V → S)} {callers : List Handle}

theorem Held.congr (held : Held frames h ps stack callers)
    (hprev : (frames' h).prev = (frames h).prev) (htask : (frames' h).task = (frames h).task)
    (hps : ∀ p ∈ ps, frames' p = frames p) : Held frames' h ps stack callers := by
  induction held generalizing frames' with
  | root prev task => exact .root (hprev.trans prev) (htask.trans task)
  | @awaited h p ps next stack callers pc forth clear prev task _ ih =>
    have hp : frames' p = frames p := hps p List.mem_cons_self
    refine .awaited ?_ ?_ ?_ (hprev.trans prev) (htask.trans task) ?_
    · rw [hp, pc]
    · rw [hp, forth]
    · rw [hp, clear]
    · exact ih (by rw [hp]) (by rw [hp]) fun q hq => hps q (List.mem_cons_of_mem p hq)
  | @started h p ps next stack callers pc clear prev task _ ih =>
    have hp : frames' p = frames p := hps p List.mem_cons_self
    refine .started ?_ ?_ (hprev.trans prev) (htask.trans task) ?_
    · rw [hp, pc]
    · rw [hp, clear]
    · exact ih (by rw [hp]) (by rw [hp]) fun q hq => hps q (List.mem_cons_of_mem p hq)

/-- A frame that is not among those that wait is written, but not whom it is awaited by. -/
theorem Held.update (held : Held frames h ps stack callers) {x : Handle} {f : Frame S E V W A}
    (hx : x ∉ ps) (hprev : x = h → f.prev = (frames h).prev)
    (htask : x = h → f.task = (frames h).task) :
    Held (Function.update frames x f) h ps stack callers := by
  have hother : ∀ p ∈ ps, Function.update frames x f p = frames p := by
    intro p hp
    have hne : p ≠ x := fun heq => hx (heq ▸ hp)
    exact Function.update_of_ne hne f frames
  by_cases hhead : x = h
  · subst hhead
    refine held.congr ?_ ?_ hother <;> rw [Function.update_self]
    · exact hprev rfl
    · exact htask rfl
  · refine held.congr ?_ ?_ hother <;> rw [Function.update_of_ne (Ne.symm hhead)]

theorem Held.callers_subset (held : Held frames h ps stack callers) : ∀ p ∈ callers, p ∈ ps := by
  induction held with
  | root => exact fun p hp => hp
  | awaited _ _ _ _ _ _ ih => exact fun q hq => List.mem_cons_of_mem _ (ih q hq)
  | started _ _ _ _ _ ih =>
    intro q hq
    obtain rfl | hq := List.mem_cons.mp hq
    · exact List.mem_cons_self
    · exact List.mem_cons_of_mem _ (ih q hq)

theorem Held.link (held : Held frames h ps stack (p :: callers)) (hnodup : (h :: ps).Nodup) :
    ∃ child next, child ∈ h :: ps ∧ child ≠ p ∧ (frames p).pc = .starting child next ∧
      ∀ fp fc, fp.pc = Pc.awaiting child next → fp.next = some child →
        fp.pendingDestroy = (frames p).pendingDestroy → fp.prev = (frames p).prev →
        fp.task = (frames p).task →
        fc = { frames child with prev := some p } →
        Held (Function.update (Function.update frames p fp) child fc) h ps stack callers := by
  generalize hcs : p :: callers = cs at held
  induction held with
  | root => cases hcs
  | @awaited h q ps next stack cs pc forth clear prev task rest ih =>
    subst hcs
    obtain ⟨child, next', hmem, hne, hpc, hlink⟩ := ih (List.nodup_cons.mp hnodup).2 rfl
    have hhead : h ∉ q :: ps := (List.nodup_cons.mp hnodup).1
    have hp : p ∈ q :: ps := List.mem_cons_of_mem q (rest.callers_subset p List.mem_cons_self)
    have hhp : h ≠ p := fun heq => hhead (heq ▸ hp)
    have hhc : h ≠ child := fun heq => hhead (heq ▸ hmem)
    have hqp : q ≠ p := by
      intro heq
      rw [heq] at pc
      rw [pc] at hpc
      cases hpc
    refine ⟨child, next', List.mem_cons_of_mem h hmem, hne, hpc, ?_⟩
    intro fp fc h₁ h₂ h₃ h₄ h₅ h₆
    have hq : Function.update (Function.update frames p fp) child fc q =
        { frames q with
          prev := (Function.update (Function.update frames p fp) child fc q).prev } := by
      by_cases hqc : q = child
      · subst hqc
        rw [Function.update_self, h₆]
      · rw [Function.update_of_ne hqc, Function.update_of_ne hqp]
    have hsame : Function.update (Function.update frames p fp) child fc h = frames h := by
      rw [Function.update_of_ne hhc, Function.update_of_ne hhp]
    refine .awaited ?_ ?_ ?_ ?_ ?_ (hlink fp fc h₁ h₂ h₃ h₄ h₅ h₆)
    · rw [hq]
      exact pc
    · rw [hq]
      exact forth
    · rw [hq]
      exact clear
    · rw [hsame]
      exact prev
    · rw [hsame]
      exact task
  | @started h q ps next stack cs pc clear prev task rest ih =>
    cases hcs
    have hhead : h ∉ p :: ps := (List.nodup_cons.mp hnodup).1
    have hhp : h ≠ p := fun heq => hhead (heq ▸ List.mem_cons_self)
    have hps : p ∉ ps := (List.nodup_cons.mp (List.nodup_cons.mp hnodup).2).1
    refine ⟨h, next, List.mem_cons_self, hhp, pc, ?_⟩
    intro fp fc h₁ h₂ h₃ h₄ h₅ h₆
    have hp : Function.update (Function.update frames p fp) h fc p = fp := by
      rw [Function.update_of_ne (Ne.symm hhp), Function.update_self]
    refine .awaited ?_ ?_ ?_ ?_ ?_ ?_
    · rw [hp, h₁]
    · rw [hp, h₂]
    · rw [hp, h₃, clear]
    · rw [Function.update_self, h₆]
    · rw [Function.update_self, h₆]
      exact task
    · have hrest := rest.update (f := fp) hps (fun _ => h₄) (fun _ => h₅)
      refine hrest.update (fun hmem => hhead (List.mem_cons_of_mem p hmem)) ?_ ?_
      · exact fun heq => absurd heq hhp
      · exact fun heq => absurd heq hhp

end Held

theorem Held.pc {frames : Handle → Frame S E V W A} {h : Handle} {ps : List Handle}
    {stack : List (Except E V → S)} {callers : List Handle}
    (held : Held frames h ps stack callers) :
    ∀ p ∈ ps, ∃ child next, (frames p).pc = .awaiting child next ∨
      (frames p).pc = .starting child next := by
  induction held with
  | root => exact fun p hp => by cases hp
  | @awaited h q ps next stack callers pc _ _ _ _ _ ih =>
    intro p hp
    obtain rfl | hp := List.mem_cons.mp hp
    · exact ⟨h, next, .inl pc⟩
    · exact ih p hp
  | @started h q ps next stack callers pc _ _ _ _ ih =>
    intro p hp
    obtain rfl | hp := List.mem_cons.mp hp
    · exact ⟨h, next, .inr pc⟩
    · exact ih p hp

/-! ## The memory -/

/-- The frames of `live` are there, and no others; memory that is no frame was not accessed. -/
structure Memory (s : State S E V W A) (live : List Handle) : Prop where
  nodup : live.Nodup
  alive : ∀ x, s.alive x = true ↔ x ∈ live
  fresh : ∀ x ∈ live, x < s.fresh
  gone : ∀ x, s.alive x = false → ∀ w next, (s.frames x).pc ≠ .suspended w next
  clean : s.faults = false

section Memory

variable {s s' : State S E V W A} {live live' : List Handle} {h child : Handle}
  {f : Frame S E V W A → Frame S E V W A}

theorem Memory.perm (m : Memory s live) (h : live.Perm live') : Memory s live' where
  nodup := h.nodup_iff.mp m.nodup
  alive x := (m.alive x).trans h.mem_iff
  fresh x hx := m.fresh x (h.mem_iff.mpr hx)
  gone := m.gone
  clean := m.clean

theorem Memory.of_eq (m : Memory s live) (hframes : s'.frames = s.frames)
    (halive : s'.alive = s.alive) (hfresh : s'.fresh = s.fresh) (hfaults : s'.faults = s.faults) :
    Memory s' live where
  nodup := m.nodup
  alive x := by
    rw [halive]
    exact m.alive x
  fresh x hx := by
    rw [hfresh]
    exact m.fresh x hx
  gone x hx := by
    rw [hframes]
    rw [halive] at hx
    exact m.gone x hx
  clean := hfaults.trans m.clean

theorem Memory.touch (m : Memory s live) (hh : h ∈ live) : Memory (s.touch h) live := by
  refine m.of_eq rfl rfl rfl ?_
  have halive := (m.alive h).mpr hh
  change (s.faults || !s.alive h) = s.faults
  rw [halive]
  exact Bool.or_false s.faults

theorem Memory.modify (m : Memory s live) (hh : h ∈ live) : Memory (s.modify h f) live where
  nodup := m.nodup
  alive := m.alive
  fresh := m.fresh
  gone x hx w next := by
    change s.alive x = false at hx
    have hne : x ≠ h := by
      rintro rfl
      rw [(m.alive x).mpr hh] at hx
      cases hx
    change (Function.update s.frames h (f (s.frames h)) x).pc ≠ _
    rw [Function.update_of_ne hne]
    exact m.gone x hx w next
  clean := (m.touch hh).clean

theorem Memory.create (m : Memory s live) (callee : S) :
    Memory (s.create callee) (s.fresh :: live) where
  nodup := List.nodup_cons.mpr ⟨fun h => Nat.lt_irrefl _ (m.fresh _ h), m.nodup⟩
  alive x := by
    change Function.update s.alive s.fresh true x = true ↔ x ∈ s.fresh :: live
    by_cases hx : x = s.fresh
    · subst hx
      simp
    · rw [Function.update_of_ne hx, List.mem_cons, m.alive x]
      simp [hx]
  fresh x hx := by
    obtain rfl | hx := List.mem_cons.mp hx
    · exact Nat.lt_succ_self s.fresh
    · exact Nat.lt_succ_of_lt (m.fresh x hx)
  gone x hx w next := by
    change Function.update s.alive s.fresh true x = false at hx
    have hne : x ≠ s.fresh := by
      rintro rfl
      rw [Function.update_self] at hx
      cases hx
    rw [Function.update_of_ne hne] at hx
    change (Function.update s.frames s.fresh (.new callee) x).pc ≠ _
    rw [Function.update_of_ne hne]
    exact m.gone x hx w next
  clean := m.clean

theorem Memory.destroy (m : Memory s (h :: live)) (hfinal : ∃ r, (s.frames h).pc = .final r)
    (rest : List Handle) : Memory (s.destroy h rest) live where
  nodup := (List.nodup_cons.mp m.nodup).2
  alive x := by
    change Function.update s.alive h false x = true ↔ x ∈ live
    by_cases hx : x = h
    · subst hx
      simp [(List.nodup_cons.mp m.nodup).1]
    · rw [Function.update_of_ne hx, m.alive x, List.mem_cons]
      simp [hx]
  fresh x hx := m.fresh x (List.mem_cons_of_mem h hx)
  gone x hx w next := by
    change Function.update s.alive h false x = false at hx
    change (s.frames x).pc ≠ _
    by_cases hxh : x = h
    · obtain ⟨r, hr⟩ := hfinal
      rw [hxh, hr]
      rintro ⟨⟩
    · rw [Function.update_of_ne hxh] at hx
      exact m.gone x hx w next
  clean := (m.touch List.mem_cons_self).clean

end Memory

/-! ## What the task shows -/

def State.dying (s : State S E V W A) : List Handle := s.qc ++ s.pending.toList

def State.queued (s : State S E V W A) : List Handle := s.q ++ s.inbox

/-- The coroutines from `h` on have not ended, and those of `dying` have. -/
structure Chained (s : State S E V W A) (h : Handle) (ps : List Handle)
    (stack : List (Except E V → S)) (callers dying : List Handle) : Prop where
  held : Held s.frames h ps stack callers
  memory : Memory s (h :: ps ++ dying)
  final : ∀ x ∈ dying, ∃ r, (s.frames x).pc = .final r
  stored : s.stored = none

/-- Where the program that the task is stands in a state of the worker.  Its innermost coroutine
runs, is in the run queue, or is suspended.  When a coroutine has ended, the one that awaits it
runs or is in the run queue, or has not awaited it yet. -/
inductive Shows (s : State S E V W A) : CallStack.Conf S (Except E V) W A → Prop where
  | running {h : Handle} {ps : List Handle} {stack : List (Except E V → S)} {st : S}
      (hrunning : s.running = some h) (hqueued : s.queued = []) (hpc : (s.frames h).pc = .runs st)
      (hclear : (s.frames h).pendingDestroy = none)
      (hchain : Chained s h ps stack s.callers s.dying) : Shows s (.running st stack)
  | queued {h : Handle} {ps : List Handle} {stack : List (Except E V → S)} {st : S}
      (hrunning : s.running = none) (hqueued : s.queued = [h]) (hpc : (s.frames h).pc = .runs st)
      (hclear : (s.frames h).pendingDestroy = none)
      (hchain : Chained s h ps stack s.callers s.dying) : Shows s (.running st stack)
  | suspended {h : Handle} {ps : List Handle} {stack : List (Except E V → S)} {w : W}
      {next : A → S} (hrunning : s.running = none) (hqueued : s.queued = [])
      (hpc : (s.frames h).pc = .suspended w next) (hclear : (s.frames h).pendingDestroy = none)
      (hchain : Chained s h ps stack s.callers s.dying) : Shows s (.waiting w next stack)
  | receiving {p e : Handle} {ps : List Handle} {next : Except E V → S}
      {stack : List (Except E V → S)} {r : Except E V} (hrunning : s.running = some p)
      (hqueued : s.queued = []) (hpc : (s.frames p).pc = .awaiting e next)
      (hclear : (s.frames p).pendingDestroy = none) (he : e ∈ s.dying)
      (hfinal : (s.frames e).pc = .final r)
      (hchain : Chained s p ps stack s.callers s.dying) : Shows s (.returned r (next :: stack))
  | handed {p e : Handle} {ps : List Handle} {next : Except E V → S}
      {stack : List (Except E V → S)} {r : Except E V} (hrunning : s.running = none)
      (hqueued : s.queued = [p]) (hpc : (s.frames p).pc = .awaiting e next)
      (hpending : (s.frames p).pendingDestroy = some e) (hfinal : (s.frames e).pc = .final r)
      (hchain : Chained s p ps stack s.callers (s.dying ++ [e])) :
      Shows s (.returned r (next :: stack))
  | returning {p e : Handle} {ps callers : List Handle} {next : Except E V → S}
      {stack : List (Except E V → S)} {r : Except E V} (hrunning : s.running = none)
      (hqueued : s.queued = []) (hcallers : s.callers = p :: callers)
      (hpc : (s.frames p).pc = .starting e next) (hclear : (s.frames p).pendingDestroy = none)
      (he : e ∈ s.dying) (hfinal : (s.frames e).pc = .final r)
      (hchain : Chained s p ps stack callers s.dying) : Shows s (.returned r (next :: stack))
  | ended {r : Except E V} (hrunning : s.running = none) (hqueued : s.queued = [])
      (hcallers : s.callers = []) (hstored : s.stored = some r) (hmemory : Memory s s.dying)
      (hfinal : ∀ x ∈ s.dying, ∃ r, (s.frames x).pc = .final r) : Shows s (.returned r [])

section Steps

variable {s s' : State S E V W A} {h p x : Handle} {ps callers dying dying' : List Handle}
  {stack : List (Except E V → S)} {c : CallStack.Conf S (Except E V) W A}
  {f : Frame S E V W A → Frame S E V W A}

namespace Chained

theorem of_eq (chain : Chained s h ps stack callers dying) (hframes : s'.frames = s.frames)
    (halive : s'.alive = s.alive) (hfresh : s'.fresh = s.fresh) (hfaults : s'.faults = s.faults)
    (hstored : s'.stored = s.stored) : Chained s' h ps stack callers dying where
  held := by
    rw [hframes]
    exact chain.held
  memory := chain.memory.of_eq hframes halive hfresh hfaults
  final := by
    rw [hframes]
    exact chain.final
  stored := hstored.trans chain.stored

theorem not_mem (chain : Chained s h ps stack callers dying) :
    h ∉ ps ∧ h ∉ dying ∧ ∀ p ∈ ps, p ∉ dying := by
  have hnodup := chain.memory.nodup
  rw [List.nodup_append] at hnodup
  refine ⟨(List.nodup_cons.mp hnodup.1).1, fun hd => ?_, fun p hp hd => ?_⟩
  · exact hnodup.2.2 h List.mem_cons_self h hd rfl
  · exact hnodup.2.2 p (List.mem_cons_of_mem h hp) p hd rfl

theorem mem_live (_chain : Chained s h ps stack callers dying) : h ∈ h :: ps ++ dying :=
  List.mem_append_left dying List.mem_cons_self

/-- A frame that has not ended is written, and neither whom it is awaited by nor, unless it is
the innermost one, where it is. -/
theorem modify (chain : Chained s h ps stack callers dying)
    (hprev : (f (s.frames h)).prev = (s.frames h).prev)
    (htask : (f (s.frames h)).task = (s.frames h).task) :
    Chained (s.modify h f) h ps stack callers dying where
  held := chain.held.update chain.not_mem.1 (fun _ => hprev) (fun _ => htask)
  memory := chain.memory.modify chain.mem_live
  final x hx := by
    have hne : x ≠ h := fun heq => chain.not_mem.2.1 (heq ▸ hx)
    obtain ⟨r, hr⟩ := chain.final x hx
    refine ⟨r, ?_⟩
    change (Function.update s.frames h (f (s.frames h)) x).pc = _
    rwa [Function.update_of_ne hne]
  stored := chain.stored

theorem touch (chain : Chained s h ps stack callers dying) (hx : x ∈ h :: ps ++ dying) :
    Chained (s.touch x) h ps stack callers dying :=
  ⟨chain.held, chain.memory.touch hx, chain.final, chain.stored⟩

theorem perm (chain : Chained s h ps stack callers dying) (hd : dying.Perm dying') :
    Chained s h ps stack callers dying' where
  held := chain.held
  memory := chain.memory.perm (hd.append_left (h :: ps))
  final x hx := chain.final x (hd.mem_iff.mpr hx)
  stored := chain.stored

end Chained

/-! ## Calls -/

theorem State.frames_modify_self (s : State S E V W A) (h : Handle)
    (f : Frame S E V W A → Frame S E V W A) : (s.modify h f).frames h = f (s.frames h) :=
  Function.update_self ..

theorem State.frames_modify_of_ne (s : State S E V W A) (hne : x ≠ h)
    (f : Frame S E V W A → Frame S E V W A) : (s.modify h f).frames x = s.frames x :=
  Function.update_of_ne hne ..

theorem State.frames_create_self (s : State S E V W A) (callee : S) :
    (s.create callee).frames s.fresh = .new callee :=
  Function.update_self ..

theorem State.frames_create_of_ne (s : State S E V W A) (hne : x ≠ s.fresh) (callee : S) :
    (s.create callee).frames x = s.frames x :=
  Function.update_of_ne hne ..

theorem Chained.created (chain : Chained s h ps stack callers dying) (callee : S) :
    s.fresh ∉ h :: ps ++ dying ∧ Memory (s.create callee) (s.fresh :: (h :: ps ++ dying)) ∧
      (∀ x ∈ h :: ps ++ dying, (s.create callee).frames x = s.frames x) := by
  have hfresh : s.fresh ∉ h :: ps ++ dying := fun hmem =>
    Nat.lt_irrefl s.fresh (chain.memory.fresh _ hmem)
  refine ⟨hfresh, chain.memory.create callee, fun x hx => ?_⟩
  exact s.frames_create_of_ne (fun heq => hfresh (heq ▸ hx)) callee

theorem Chained.callEager (chain : Chained s h ps stack callers dying)
    (hclear : (s.frames h).pendingDestroy = none) (callee : S) (next : Except E V → S) :
    Chained ((s.create callee).goto h (.starting s.fresh next)) s.fresh (h :: ps) (next :: stack)
      (h :: callers) dying := by
  obtain ⟨hfresh, hmemory, hsame⟩ := chain.created callee
  have hne : s.fresh ≠ h := fun heq => hfresh (heq ▸ chain.mem_live)
  have hself : ((s.create callee).goto h (.starting s.fresh next)).frames h =
      { s.frames h with pc := .starting s.fresh next } := by
    rw [State.goto, State.frames_modify_self, hsame h chain.mem_live]
  have hchild : ((s.create callee).goto h (.starting s.fresh next)).frames s.fresh =
      .new callee := by
    rw [State.goto, State.frames_modify_of_ne _ hne, State.frames_create_self]
  have hother : ∀ x ∈ h :: ps ++ dying, x ≠ h →
      ((s.create callee).goto h (.starting s.fresh next)).frames x = s.frames x := by
    intro x hx hxh
    rw [State.goto, State.frames_modify_of_ne _ hxh, hsame x hx]
  refine ⟨.started ?_ ?_ ?_ ?_ ?_, ?_, fun x hx => ?_, chain.stored⟩
  · rw [hself]
  · rw [hself]
    exact hclear
  · rw [hchild]
    rfl
  · rw [hchild]
    rfl
  · refine chain.held.congr ?_ ?_ fun q hq => ?_
    · rw [hself]
    · rw [hself]
    · exact hother q (List.mem_append_left dying (List.mem_cons_of_mem h hq))
        fun heq => chain.not_mem.1 (heq ▸ hq)
  · exact hmemory.modify (List.mem_cons_of_mem _ chain.mem_live)
  · obtain ⟨r, hr⟩ := chain.final x hx
    refine ⟨r, ?_⟩
    rw [hother x (List.mem_append_right _ hx) fun heq => chain.not_mem.2.1 (heq ▸ hx), hr]

theorem Chained.callLazy (chain : Chained s h ps stack callers dying)
    (hclear : (s.frames h).pendingDestroy = none) (callee : S) (next : Except E V → S) :
    Chained ((s.create callee).link h s.fresh next) s.fresh (h :: ps) (next :: stack) callers
      dying := by
  obtain ⟨hfresh, hmemory, hsame⟩ := chain.created callee
  have hne : h ≠ s.fresh := fun heq => hfresh (heq ▸ chain.mem_live)
  have hself : ((s.create callee).link h s.fresh next).frames h =
      { s.frames h with pc := .awaiting s.fresh next, next := some s.fresh } := by
    rw [State.link, State.frames_modify_of_ne _ hne, State.frames_modify_self,
      hsame h chain.mem_live]
  have hchild : ((s.create callee).link h s.fresh next).frames s.fresh =
      { Frame.new callee with prev := some h } := by
    rw [State.link, State.frames_modify_self, State.frames_modify_of_ne _ hne.symm,
      State.frames_create_self]
  have hother : ∀ x ∈ h :: ps ++ dying, x ≠ h →
      ((s.create callee).link h s.fresh next).frames x = s.frames x := by
    intro x hx hxh
    have hxc : x ≠ s.fresh := fun heq => hfresh (heq ▸ hx)
    rw [State.link, State.frames_modify_of_ne _ hxc, State.frames_modify_of_ne _ hxh, hsame x hx]
  refine ⟨.awaited ?_ ?_ ?_ ?_ ?_ ?_, ?_, fun x hx => ?_, chain.stored⟩
  · rw [hself]
  · rw [hself]
  · rw [hself]
    exact hclear
  · rw [hchild]
  · rw [hchild]
    rfl
  · refine chain.held.congr ?_ ?_ fun q hq => ?_
    · rw [hself]
    · rw [hself]
    · exact hother q (List.mem_append_left dying (List.mem_cons_of_mem h hq))
        fun heq => chain.not_mem.1 (heq ▸ hq)
  · exact (hmemory.modify (List.mem_cons_of_mem _ chain.mem_live)).modify List.mem_cons_self
  · obtain ⟨r, hr⟩ := chain.final x hx
    refine ⟨r, ?_⟩
    rw [hother x (List.mem_append_right _ hx) fun heq => chain.not_mem.2.1 (heq ▸ hx), hr]

/-! ## Ends -/

/-- The innermost coroutine has ended, and the one that called it is the innermost one now. -/
theorem Chained.outer {r : Except E V} {stack' : List (Except E V → S)} {callers' : List Handle}
    (chain : Chained s h (p :: ps) stack callers dying)
    (rest : Held s.frames p ps stack' callers') (hprev : (s'.frames p).prev = (s.frames p).prev)
    (htask : (s'.frames p).task = (s.frames p).task)
    (hsame : ∀ x, x ≠ h → x ≠ p → s'.frames x = s.frames x)
    (hfinal : (s'.frames h).pc = .final r) (hmemory : Memory s' (h :: p :: ps ++ dying))
    (hstored : s'.stored = none) : Chained s' p ps stack' callers' (h :: dying) where
  held := by
    refine rest.congr hprev htask fun q hq => hsame q ?_ ?_
    · exact fun heq => chain.not_mem.1 (heq ▸ List.mem_cons_of_mem p hq)
    · have hnodup := (List.nodup_append.mp chain.memory.nodup).1
      exact fun heq => (List.nodup_cons.mp (List.nodup_cons.mp hnodup).2).1 (heq ▸ hq)
  memory := hmemory.perm List.perm_middle.symm
  final x hx := by
    obtain rfl | hx := List.mem_cons.mp hx
    · exact ⟨r, hfinal⟩
    · obtain ⟨r', hr'⟩ := chain.final x hx
      refine ⟨r', ?_⟩
      rw [hsame x, hr']
      · exact fun heq => chain.not_mem.2.1 (heq ▸ hx)
      · exact fun heq => chain.not_mem.2.2 p List.mem_cons_self (heq ▸ hx)
  stored := hstored

theorem State.frames_finish_self (s : State S E V W A) (h : Handle) (r : Except E V) :
    (s.finish h r).frames h = { s.frames h with pc := .final r, task := false } :=
  Function.update_self ..

theorem State.frames_finish_of_ne (s : State S E V W A) (hne : x ≠ h) (r : Except E V) :
    (s.finish h r).frames x = s.frames x :=
  Function.update_of_ne hne ..

theorem Memory.finish {live : List Handle} (m : Memory s live) (hh : h ∈ live) (r : Except E V) :
    Memory (s.finish h r) live :=
  (m.modify (f := fun f => { f with pc := .final r, task := false }) hh).of_eq rfl rfl rfl rfl

theorem perm_dying (s : State S E V W A) (h : Handle) :
    (h :: s.dying).Perm (s.qc ++ [h] ++ s.pending.toList) := by
  rw [List.append_assoc]
  exact List.perm_middle.symm

theorem stored_finish (s : State S E V W A) (r : Except E V) (htask : (s.frames h).task = false) :
    (s.finish h r).stored = s.stored := by
  change (if (s.frames h).task = true then some r else s.stored) = s.stored
  rw [htask]
  exact if_neg Bool.false_ne_true

/-- `final_transfer` to the coroutine that awaits the innermost one. -/
theorem Chained.passed {stack' : List (Except E V → S)} {callers' : List Handle}
    (chain : Chained s h (p :: ps) stack callers dying)
    (rest : Held s.frames p ps stack' callers') (r : Except E V)
    (htask : (s.frames h).task = false) (hprev : (f (s.frames p)).prev = (s.frames p).prev)
    (hftask : (f (s.frames p)).task = (s.frames p).task)
    (hs' : s' = ((s.finish h r).modify h fun f => { f with prev := none }).modify p f) :
    Chained s' p ps stack' callers' (h :: dying) ∧ s'.frames p = f (s.frames p) ∧
      (s'.frames h).pc = .final r := by
  have hne : p ≠ h := fun heq => chain.not_mem.1 (heq ▸ List.mem_cons_self)
  have hp : p ∈ h :: p :: ps ++ dying := List.mem_cons_of_mem h List.mem_cons_self
  have hframep : s'.frames p = f (s.frames p) := by
    rw [hs', State.frames_modify_self, State.frames_modify_of_ne _ hne, s.frames_finish_of_ne hne]
  have hframeh : (s'.frames h).pc = .final r := by
    rw [hs', State.frames_modify_of_ne _ hne.symm, State.frames_modify_self,
      s.frames_finish_self h r]
  have hsame : ∀ x, x ≠ h → x ≠ p → s'.frames x = s.frames x := by
    intro x hxh hxp
    rw [hs', State.frames_modify_of_ne _ hxp, State.frames_modify_of_ne _ hxh,
      s.frames_finish_of_ne hxh]
  have hmemory : Memory s' (h :: p :: ps ++ dying) := by
    rw [hs']
    exact ((chain.memory.finish chain.mem_live r).modify chain.mem_live).modify hp
  have hstored : s'.stored = none := by
    rw [hs']
    exact (stored_finish s r htask).trans chain.stored
  refine ⟨?_, hframep, hframeh⟩
  exact chain.outer rest (by rw [hframep, hprev]) (by rw [hframep, hftask]) hsame hframeh hmemory
    hstored

/-- The innermost coroutine ends, and its `final_transfer` gives the result on. -/
theorem Shows.finish (hqueued : s.queued = [])
    (hchain : Chained s h ps stack s.callers s.dying) (r : Except E V) (deep : Bool) :
    Shows ((s.finish h r).finalTransfer deep h) (.returned r stack) := by
  have hheld := hchain.held
  generalize hcs : s.callers = cs at hheld
  obtain ⟨hq, hinbox⟩ := List.append_eq_nil_iff.mp hqueued
  have hself := s.frames_finish_self h r
  have hmem : h ∈ s.qc ++ [h] ++ s.pending.toList := (perm_dying s h).mem_iff.mp List.mem_cons_self
  cases hheld with
  | root prev task =>
    have hprev : ((s.finish h r).frames h).prev = none := by rw [hself, ← prev]
    rw [State.finalTransfer_none deep hprev]
    refine .ended rfl hqueued hcs ?_ ?_ fun x hx => ?_
    · change (if (s.frames h).task = true then some r else s.stored) = some r
      rw [if_pos task]
    · have hmemory := (hchain.memory.finish hchain.mem_live r).touch hchain.mem_live
      exact (hmemory.perm (perm_dying s h)).of_eq rfl rfl rfl rfl
    · change ∃ r', ((s.finish h r).frames x).pc = .final r'
      by_cases hxh : x = h
      · exact ⟨r, by rw [hxh, hself]⟩
      · rw [s.frames_finish_of_ne hxh]
        have hx' : x ∈ h :: s.dying := (perm_dying s h).mem_iff.mpr hx
        exact hchain.final x ((List.mem_cons.mp hx').resolve_left hxh)
  | @awaited _ p ps next stack _ pc forth clear prev task rest =>
    have hprev : ((s.finish h r).frames h).prev = some p := by rw [hself, ← prev]
    cases deep with
    | false =>
      rw [State.finalTransfer_some hprev]
      obtain ⟨hpassed, hp, hh⟩ := hchain.passed rest r task
        (f := fun f => { f with next := none }) rfl rfl rfl
      refine .receiving (e := h) rfl hqueued ?_ ?_ hmem hh (?_ : Chained _ p ps stack _ _)
      · exact (congrArg Frame.pc hp).trans pc
      · exact (congrArg Frame.pendingDestroy hp).trans clear
      · rw [← hcs] at hpassed
        exact (hpassed.perm (perm_dying s h)).of_eq rfl rfl rfl rfl rfl
    | true =>
      rw [State.finalTransfer_deep hprev]
      obtain ⟨hpassed, hp, hh⟩ := hchain.passed rest r task
        (f := fun f => { f with next := none, pendingDestroy := some h }) rfl rfl rfl
      refine .handed (e := h) rfl ?_ ?_ ?_ hh (?_ : Chained _ p ps stack _ _)
      · change (s.q ++ [p]) ++ s.inbox = [p]
        rw [hq, hinbox]
        rfl
      · exact (congrArg Frame.pc hp).trans pc
      · exact congrArg Frame.pendingDestroy hp
      · rw [← hcs] at hpassed
        exact (hpassed.perm (List.perm_append_singleton h s.dying).symm).of_eq rfl rfl rfl rfl rfl
  | @started _ p ps next stack cs pc clear prev task rest =>
    have hprev : ((s.finish h r).frames h).prev = none := by rw [hself, ← prev]
    have hne : p ≠ h := fun heq => hchain.not_mem.1 (heq ▸ List.mem_cons_self)
    have hp : (s.finish h r).frames p = s.frames p := s.frames_finish_of_ne hne r
    have hh : ((s.finish h r).frames h).pc = .final r := by rw [hself]
    have hmemory := (hchain.memory.finish hchain.mem_live r).touch hchain.mem_live
    rw [State.finalTransfer_none deep hprev]
    refine .returning (e := h) rfl hqueued hcs ?_ ?_ hmem hh (?_ : Chained _ p ps stack _ _)
    · exact (congrArg Frame.pc hp).trans pc
    · exact (congrArg Frame.pendingDestroy hp).trans clear
    · have houter : Chained ((s.finish h r).touch h) p ps stack cs (h :: s.dying) :=
        hchain.outer rest (congrArg Frame.prev hp) (congrArg Frame.task hp)
          (fun x hxh _ => s.frames_finish_of_ne hxh r) hh hmemory
          ((stored_finish s r task).trans hchain.stored)
      exact (houter.perm (perm_dying s h)).of_eq rfl rfl rfl rfl rfl

/-! ## The other steps -/

theorem Shows.of_eq (h : Shows s c) (hframes : s'.frames = s.frames) (halive : s'.alive = s.alive)
    (hfresh : s'.fresh = s.fresh) (hfaults : s'.faults = s.faults) (hstored : s'.stored = s.stored)
    (hrunning : s'.running = s.running) (hcallers : s'.callers = s.callers)
    (hqueued : s'.queued = s.queued) (hdying : s'.dying = s.dying) : Shows s' c := by
  have hchained : ∀ {h ps} {stack : List (Except E V → S)} {callers dying},
      Chained s h ps stack callers dying → Chained s' h ps stack callers dying :=
    fun hchain => hchain.of_eq hframes halive hfresh hfaults hstored
  cases h with
  | running h₁ h₂ h₃ h₄ h₅ =>
    rw [← hdying, ← hcallers] at h₅
    rw [← hframes] at h₃ h₄
    exact .running (hrunning.trans h₁) (hqueued.trans h₂) h₃ h₄ (hchained h₅)
  | queued h₁ h₂ h₃ h₄ h₅ =>
    rw [← hdying, ← hcallers] at h₅
    rw [← hframes] at h₃ h₄
    exact .queued (hrunning.trans h₁) (hqueued.trans h₂) h₃ h₄ (hchained h₅)
  | suspended h₁ h₂ h₃ h₄ h₅ =>
    rw [← hdying, ← hcallers] at h₅
    rw [← hframes] at h₃ h₄
    exact .suspended (hrunning.trans h₁) (hqueued.trans h₂) h₃ h₄ (hchained h₅)
  | receiving h₁ h₂ h₃ h₄ h₅ h₆ h₇ =>
    rw [← hdying] at h₅
    rw [← hdying, ← hcallers] at h₇
    rw [← hframes] at h₃ h₄ h₆
    exact .receiving (hrunning.trans h₁) (hqueued.trans h₂) h₃ h₄ h₅ h₆ (hchained h₇)
  | handed h₁ h₂ h₃ h₄ h₅ h₆ =>
    rw [← hdying, ← hcallers] at h₆
    rw [← hframes] at h₃ h₄ h₅
    exact .handed (hrunning.trans h₁) (hqueued.trans h₂) h₃ h₄ h₅ (hchained h₆)
  | returning h₁ h₂ h₃ h₄ h₅ h₆ h₇ h₈ =>
    rw [← hdying] at h₆ h₈
    rw [← hframes] at h₄ h₅ h₇
    exact .returning (hrunning.trans h₁) (hqueued.trans h₂) (hcallers.trans h₃) h₄ h₅ h₆ h₇
      (hchained h₈)
  | ended h₁ h₂ h₃ h₄ h₅ h₆ =>
    rw [← hdying] at h₅ h₆
    rw [← hframes] at h₆
    exact .ended (hrunning.trans h₁) (hqueued.trans h₂) (hcallers.trans h₃) (hstored.trans h₄)
      (h₅.of_eq hframes halive hfresh hfaults) h₆

theorem Shows.takeInbox (h : Shows s c) {x : Handle} {rest : List Handle}
    (hinbox : s.inbox = x :: rest) : Shows (s.takeInbox x rest) c := by
  refine h.of_eq rfl rfl rfl rfl rfl rfl rfl ?_ rfl
  change (s.q ++ [x]) ++ rest = s.q ++ s.inbox
  rw [hinbox, List.append_assoc]
  rfl

theorem Shows.endResume (h : Shows s c) : Shows s.endResume c :=
  h.of_eq rfl rfl rfl rfl rfl rfl rfl rfl (List.append_nil s.dying)

theorem Chained.goto (chain : Chained s h ps stack callers dying) (pc : Pc S E V W A) :
    Chained (s.goto h pc) h ps stack callers dying :=
  chain.modify rfl rfl

theorem Shows.wait {w : W} {next : A → S} (hqueued : s.queued = [])
    (hclear : (s.frames h).pendingDestroy = none)
    (hchain : Chained s h ps stack s.callers s.dying) :
    Shows { s.goto h (.suspended w next) with running := none } (.waiting w next stack) := by
  have hself := s.frames_modify_self h fun f => { f with pc := .suspended w next }
  refine .suspended rfl hqueued (congrArg Frame.pc hself) ?_
    ((hchain.goto (.suspended w next)).of_eq rfl rfl rfl rfl rfl)
  exact (congrArg Frame.pendingDestroy hself).trans hclear

theorem Shows.ready {w : W} {next : A → S} (a : A) (hrunning : s.running = some h)
    (hqueued : s.queued = []) (hclear : (s.frames h).pendingDestroy = none)
    (hchain : Chained s h ps stack s.callers s.dying) :
    Shows (s.ready h w next a) (.running (next a) stack) := by
  have hself := s.frames_modify_self h fun f => { f with pc := .runs (next a) }
  refine .running hrunning hqueued (congrArg Frame.pc hself) ?_
    ((hchain.goto (.runs (next a))).of_eq rfl rfl rfl rfl rfl)
  exact (congrArg Frame.pendingDestroy hself).trans hclear

theorem Shows.wake {w : W} {next : A → S} (own : Bool) (a : A) (hrunning : s.running = none)
    (hqueued : s.queued = []) (hclear : (s.frames h).pendingDestroy = none)
    (hchain : Chained s h ps stack s.callers s.dying) :
    Shows (s.wake own h w next a) (.running (next a) stack) := by
  obtain ⟨hq, hinbox⟩ := List.append_eq_nil_iff.mp hqueued
  have hself := s.frames_modify_self h fun f => { f with pc := .runs (next a) }
  have hchain' := hchain.goto (.runs (next a))
  cases own with
  | true =>
    refine .queued hrunning ?_ (congrArg Frame.pc hself) ?_ (hchain'.of_eq rfl rfl rfl rfl rfl)
    · change (s.q ++ [h]) ++ s.inbox = [h]
      rw [hq, hinbox]
      rfl
    · exact (congrArg Frame.pendingDestroy hself).trans hclear
  | false =>
    refine .queued hrunning ?_ (congrArg Frame.pc hself) ?_ (hchain'.of_eq rfl rfl rfl rfl rfl)
    · change s.q ++ (s.inbox ++ [h]) = [h]
      rw [hq, hinbox]
      rfl
    · exact (congrArg Frame.pendingDestroy hself).trans hclear

theorem Shows.callEager (hqueued : s.queued = []) (hclear : (s.frames h).pendingDestroy = none)
    (hchain : Chained s h ps stack s.callers s.dying) (callee : S) (next : Except E V → S) :
    Shows (s.callEager h callee next) (.running callee (next :: stack)) := by
  have hne : s.fresh ≠ h := fun heq => (hchain.created callee).1 (heq ▸ hchain.mem_live)
  have hchild : (s.callEager h callee next).frames s.fresh = .new callee :=
    ((s.create callee).frames_modify_of_ne hne
      fun f => { f with pc := .starting s.fresh next }).trans (s.frames_create_self callee)
  exact .running rfl hqueued (congrArg Frame.pc hchild) (congrArg Frame.pendingDestroy hchild)
    ((hchain.callEager hclear callee next).of_eq rfl rfl rfl rfl rfl)

theorem Shows.callLazy (hqueued : s.queued = []) (hclear : (s.frames h).pendingDestroy = none)
    (hchain : Chained s h ps stack s.callers s.dying) (deep : Bool) (callee : S)
    (next : Except E V → S) :
    Shows (s.callLazy deep h callee next) (.running callee (next :: stack)) := by
  obtain ⟨hq, hinbox⟩ := List.append_eq_nil_iff.mp hqueued
  have hne : s.fresh ≠ h := fun heq => (hchain.created callee).1 (heq ▸ hchain.mem_live)
  have hchain' := hchain.callLazy hclear callee next
  have hchild : ((s.create callee).link h s.fresh next).frames s.fresh =
      { Frame.new callee with prev := some h } := by
    rw [State.link, State.frames_modify_self, State.frames_modify_of_ne _ hne,
      State.frames_create_self]
  cases deep with
  | false =>
    exact .running rfl hqueued (congrArg Frame.pc hchild) (congrArg Frame.pendingDestroy hchild)
      (hchain'.of_eq rfl rfl rfl rfl rfl)
  | true =>
    refine .queued rfl ?_ (congrArg Frame.pc hchild) (congrArg Frame.pendingDestroy hchild)
      (hchain'.of_eq rfl rfl rfl rfl rfl)
    change (s.q ++ [s.fresh]) ++ s.inbox = [s.fresh]
    rw [hq, hinbox]
    rfl

theorem Shows.get {e : Handle} {next : Except E V → S} {r : Except E V}
    (hrunning : s.running = some p) (hqueued : s.queued = [])
    (hclear : (s.frames p).pendingDestroy = none) (he : e ∈ s.dying)
    (hfinal : (s.frames e).pc = .final r) (hchain : Chained s p ps stack s.callers s.dying) :
    Shows (s.get p e next) (.running (next r) stack) := by
  have hget : s.get p e next = (s.touch e).goto p (.runs (next r)) := by rw [State.get, hfinal]
  have hself := (s.touch e).frames_modify_self p fun f => { f with pc := .runs (next r) }
  rw [hget]
  refine .running hrunning hqueued (congrArg Frame.pc hself) ?_
    ((hchain.touch (List.mem_append_right _ he)).goto (.runs (next r)))
  exact (congrArg Frame.pendingDestroy hself).trans hclear

theorem Chained.link (chain : Chained s h ps stack (p :: callers) dying)
    (hpc : ∀ r, (s.frames h).pc ≠ .final r) :
    ∃ s', s.back p callers = s' ∧ Chained s' h ps stack callers dying ∧
      (s'.frames h).pc = (s.frames h).pc ∧
      (s'.frames h).pendingDestroy = (s.frames h).pendingDestroy ∧
      (∀ x ∉ h :: ps, s'.frames x = s.frames x) ∧ s'.running = s.running ∧ s'.q = s.q ∧
      s'.inbox = s.inbox ∧ s'.qc = s.qc ∧ s'.pending = s.pending ∧ s'.callers = callers ∧
      s'.log = s.log := by
  have hnodup := (List.nodup_append.mp chain.memory.nodup).1
  obtain ⟨child, next, hchild, hne, hstart, hlink⟩ := chain.held.link hnodup
  have hp : p ∈ h :: ps := List.mem_cons_of_mem h (chain.held.callers_subset p List.mem_cons_self)
  have hhp : h ≠ p := fun heq =>
    chain.not_mem.1 (heq ▸ chain.held.callers_subset p List.mem_cons_self)
  have hnotfinal : ∀ r, (s.frames child).pc ≠ .final r := by
    obtain rfl | hmem := List.mem_cons.mp hchild
    · exact hpc
    · obtain ⟨c, n, hpc' | hpc'⟩ := chain.held.pc child hmem <;>
      · rw [hpc']
        rintro r ⟨⟩
  have hback : s.back p callers = { s.link p child next with callers := callers } := by
    cases hcpc : (s.frames child).pc with
    | final r => exact absurd hcpc (hnotfinal r)
    | runs | suspended | starting | awaiting => simp only [State.back, hstart, hcpc]
  have hpchild : (s.link p child next).frames child = { s.frames child with prev := some p } := by
    rw [State.link, State.frames_modify_self, State.frames_modify_of_ne _ hne]
  have hother : ∀ x, x ≠ p → x ≠ child → (s.link p child next).frames x = s.frames x := by
    intro x hxp hxc
    rw [State.link, State.frames_modify_of_ne _ hxc, State.frames_modify_of_ne _ hxp]
  have hhead : ((s.link p child next).frames h).pc = (s.frames h).pc ∧
      ((s.link p child next).frames h).pendingDestroy = (s.frames h).pendingDestroy := by
    by_cases hhc : h = child
    · rw [hhc, hpchild]
      exact ⟨rfl, rfl⟩
    · rw [hother h hhp hhc]
      exact ⟨rfl, rfl⟩
  have hsame : ∀ x ∉ h :: ps, (s.link p child next).frames x = s.frames x := fun x hx =>
    hother x (fun heq => hx (heq ▸ hp)) (fun heq => hx (heq ▸ hchild))
  have hheld : Held (s.link p child next).frames h ps stack callers := by
    refine hlink { s.frames p with pc := .awaiting child next, next := some child } _ rfl rfl rfl
      rfl rfl ?_
    change { Function.update s.frames p _ child with prev := some p } = _
    rw [Function.update_of_ne hne]
  have hmemory : Memory (s.link p child next) (h :: ps ++ dying) :=
    (chain.memory.modify (List.mem_append_left dying hp)).modify (List.mem_append_left dying hchild)
  have hdying : ∀ x ∈ dying, ∃ r, ((s.link p child next).frames x).pc = .final r := by
    intro x hx
    obtain ⟨r, hr⟩ := chain.final x hx
    refine ⟨r, ?_⟩
    rw [hsame x, hr]
    intro hmem
    exact (List.nodup_append.mp chain.memory.nodup).2.2 x hmem x hx rfl
  have hchain : Chained (s.link p child next) h ps stack callers dying :=
    ⟨hheld, hmemory, hdying, chain.stored⟩
  exact ⟨_, hback, hchain.of_eq rfl rfl rfl rfl rfl, hhead.1, hhead.2, hsame, rfl, rfl, rfl, rfl,
    rfl, rfl, rfl⟩

theorem Shows.back (h : Shows s c) (hrunning : s.running = none)
    (hcallers : s.callers = p :: callers) :
    Shows (s.back p callers) c ∧ (s.back p callers).callers = callers ∧
      (s.back p callers).log = s.log := by
  cases h with
  | running hrun _ _ _ _ | receiving hrun _ _ _ _ _ _ =>
    rw [hrunning] at hrun
    cases hrun
  | @queued h ps stack st _ hqueued hpc hclear hchain =>
    rw [hcallers] at hchain
    obtain ⟨s', hback, hlink, hpc', hclear', _, h₁, h₂, h₃, h₄, h₅, h₆, h₇⟩ := hchain.link (by
      rw [hpc]
      rintro r ⟨⟩)
    rw [hback]
    have hdying : s'.dying = s.dying := by rw [State.dying, h₄, h₅, State.dying]
    rw [← h₆, ← hdying] at hlink
    refine ⟨.queued (h₁.trans hrunning) ?_ (hpc'.trans hpc) (hclear'.trans hclear) hlink, h₆, h₇⟩
    rw [State.queued, h₂, h₃, ← hqueued, State.queued]
  | @suspended h ps stack w next _ hqueued hpc hclear hchain =>
    rw [hcallers] at hchain
    obtain ⟨s', hback, hlink, hpc', hclear', _, h₁, h₂, h₃, h₄, h₅, h₆, h₇⟩ := hchain.link (by
      rw [hpc]
      rintro r ⟨⟩)
    rw [hback]
    have hdying : s'.dying = s.dying := by rw [State.dying, h₄, h₅, State.dying]
    rw [← h₆, ← hdying] at hlink
    refine ⟨.suspended (h₁.trans hrunning) ?_ (hpc'.trans hpc) (hclear'.trans hclear) hlink, h₆, h₇⟩
    rw [State.queued, h₂, h₃, ← hqueued, State.queued]
  | @handed q e ps next stack r _ hqueued hpc hpending hfinal hchain =>
    rw [hcallers] at hchain
    obtain ⟨s', hback, hlink, hpc', hpending', hsame, h₁, h₂, h₃, h₄, h₅, h₆, h₇⟩ := hchain.link (by
      rw [hpc]
      rintro r ⟨⟩)
    rw [hback]
    have hdying : s'.dying = s.dying := by rw [State.dying, h₄, h₅, State.dying]
    have he : e ∉ q :: ps := fun hmem => (List.nodup_append.mp hchain.memory.nodup).2.2 e hmem e
      (List.mem_append_right _ List.mem_cons_self) rfl
    rw [← h₆, ← hdying] at hlink
    refine ⟨.handed (h₁.trans hrunning) ?_ (hpc'.trans hpc) (hpending'.trans hpending) ?_ hlink,
      h₆, h₇⟩
    · rw [State.queued, h₂, h₃, ← hqueued, State.queued]
    · rw [hsame e he, hfinal]
  | @returning q e ps callers' next stack r _ hqueued hcallers' hpc hclear he hfinal hchain =>
    rw [hcallers] at hcallers'
    cases hcallers'
    have hback : s.back p callers =
        { (s.touch e).goto p (.awaiting e next) with running := some p, callers := callers } := by
      simp only [State.back, hpc, hfinal]
    have hself := (s.touch e).frames_modify_self p fun f => { f with pc := .awaiting e next }
    have hne : e ≠ p := by
      rintro rfl
      rw [hpc] at hfinal
      cases hfinal
    have hother := (s.touch e).frames_modify_of_ne hne fun f => { f with pc := .awaiting e next }
    have hchain' := (hchain.touch (List.mem_append_right _ he)).goto (.awaiting e next)
    rw [hback]
    refine ⟨.receiving rfl hqueued (congrArg Frame.pc hself) ?_ he ?_
      (hchain'.of_eq rfl rfl rfl rfl rfl), rfl, rfl⟩
    · exact (congrArg Frame.pendingDestroy hself).trans hclear
    · exact (congrArg Frame.pc hother).trans hfinal
  | ended _ _ hcallers' _ _ _ =>
    rw [hcallers] at hcallers'
    cases hcallers'

theorem State.queued_of_q {rest : List Handle} (hq : s.q = x :: rest) (hqueued : s.queued = [h]) :
    x = h ∧ rest ++ s.inbox = [] := by
  rw [State.queued, hq, List.cons_append, List.cons.injEq] at hqueued
  exact hqueued

theorem Shows.resume (hs : Shows s c) (hpending : s.pending = none) {rest : List Handle}
    (hq : s.q = x :: rest) :
    Shows (s.resume x rest) c ∧ (s.resume x rest).running = some x ∧
      (s.resume x rest).log = s.log := by
  have hsome : s.queued ≠ [] := by
    rw [State.queued, hq]
    exact List.cons_ne_nil x _
  cases hs with
  | running _ hqueued _ _ _ | suspended _ hqueued _ _ _ | receiving _ hqueued _ _ _ _ _
  | returning _ hqueued _ _ _ _ _ _ | ended _ hqueued _ _ _ _ => exact absurd hqueued hsome
  | @queued h ps stack st _ hqueued hpc hclear hchain =>
    obtain ⟨rfl, hrest⟩ := s.queued_of_q hq hqueued
    have hresume : s.resume x rest =
        { s.modify x fun f => { f with pendingDestroy := none } with
          q := rest
          running := some x
          resumed := some x
          pending := none } := by
      simp only [State.resume, hpc, hclear]
    have hself := s.frames_modify_self x fun f => { f with pendingDestroy := none }
    have hchain' := hchain.modify (f := fun f => { f with pendingDestroy := none }) rfl rfl
    rw [State.dying, hpending] at hchain'
    rw [hresume]
    exact ⟨.running rfl hrest ((congrArg Frame.pc hself).trans hpc)
      (congrArg Frame.pendingDestroy hself) (hchain'.of_eq rfl rfl rfl rfl rfl), rfl, rfl⟩
  | @handed p e ps next stack r _ hqueued hpc hsent hfinal hchain =>
    obtain ⟨rfl, hrest⟩ := s.queued_of_q hq hqueued
    have hresume : s.resume x rest =
        { s.modify x fun f => { f with pendingDestroy := none } with
          q := rest
          running := some x
          resumed := some x
          pending := some e } := by
      simp only [State.resume, hpc, hsent]
    have hself := s.frames_modify_self x fun f => { f with pendingDestroy := none }
    have hne : e ≠ x := by
      rintro rfl
      rw [hpc] at hfinal
      cases hfinal
    have hother := s.frames_modify_of_ne hne fun f => { f with pendingDestroy := none }
    have hchain' := hchain.modify (f := fun f => { f with pendingDestroy := none }) rfl rfl
    rw [State.dying, hpending, Option.toList_none, List.append_nil] at hchain'
    rw [hresume]
    exact ⟨.receiving rfl hrest ((congrArg Frame.pc hself).trans hpc)
      (congrArg Frame.pendingDestroy hself) (List.mem_append_right s.qc List.mem_cons_self)
      ((congrArg Frame.pc hother).trans hfinal) (hchain'.of_eq rfl rfl rfl rfl rfl), rfl, rfl⟩

theorem Chained.destroy (chain : Chained s h ps stack callers (x :: dying)) (rest : List Handle) :
    Chained (s.destroy x rest) h ps stack callers dying where
  held := chain.held
  memory := (chain.memory.perm List.perm_middle).destroy (chain.final x List.mem_cons_self) rest
  final y hy := chain.final y (List.mem_cons_of_mem x hy)
  stored := chain.stored

theorem Shows.destroy (hs : Shows s c) (hrunning : s.running = none) (hcallers : s.callers = [])
    {rest : List Handle} (hqc : s.qc = x :: rest) : Shows (s.destroy x rest) c := by
  have hdying : s.dying = x :: (s.destroy x rest).dying := by
    rw [State.dying, hqc]
    rfl
  cases hs with
  | running hrun _ _ _ _ | receiving hrun _ _ _ _ _ _ =>
    rw [hrunning] at hrun
    cases hrun
  | queued _ hqueued hpc hclear hchain =>
    rw [hdying] at hchain
    exact .queued hrunning hqueued hpc hclear (hchain.destroy rest)
  | suspended _ hqueued hpc hclear hchain =>
    rw [hdying] at hchain
    exact .suspended hrunning hqueued hpc hclear (hchain.destroy rest)
  | handed _ hqueued hpc hsent hfinal hchain =>
    rw [hdying] at hchain
    exact .handed hrunning hqueued hpc hsent hfinal (hchain.destroy rest)
  | returning _ _ hcallers' _ _ _ _ _ =>
    rw [hcallers] at hcallers'
    cases hcallers'
  | ended _ hqueued _ hstored hmemory hfinal =>
    rw [hdying] at hmemory hfinal
    exact .ended hrunning hqueued hcallers hstored
      (hmemory.destroy (hfinal x List.mem_cons_self) rest)
      fun y hy => hfinal y (List.mem_cons_of_mem x hy)

end Steps

/-! ## Runs -/

section Runs

variable {code : S → Act S E V W A} {deep : State S E V W A → Bool} {root : S}
  {s s' : State S E V W A} {c c' : CallStack.Conf S (Except E V) W A} {l : List (W × A)}

structure Looping (s : State S E V W A) : Prop where
  running : s.resumed = none → s.running = none
  callers : s.resumed = none → s.callers = []
  pending : s.resumed = none → s.pending = none

theorem State.finalTransfer_unchanged (s : State S E V W A) (d : Bool) (h : Handle) :
    (s.finalTransfer d h).resumed = s.resumed ∧ (s.finalTransfer d h).log = s.log := by
  cases hprev : (s.frames h).prev with
  | none =>
    rw [State.finalTransfer_none d hprev]
    exact ⟨rfl, rfl⟩
  | some p =>
    cases d with
    | false =>
      rw [State.finalTransfer_some hprev]
      exact ⟨rfl, rfl⟩
    | true =>
      rw [State.finalTransfer_deep hprev]
      exact ⟨rfl, rfl⟩

theorem State.get_unchanged (s : State S E V W A) (h child : Handle) (next : Except E V → S) :
    (s.get h child next).resumed = s.resumed ∧ (s.get h child next).log = s.log := by
  cases hpc : (s.frames child).pc with
  | final r =>
    simp only [State.get, hpc]
    exact ⟨rfl, rfl⟩
  | runs | suspended | starting | awaiting => simp only [State.get, hpc, and_self]

theorem State.run_unchanged (s : State S E V W A) (code : S → Act S E V W A) (d : Bool)
    (h : Handle) :
    (s.run code d h).resumed = s.resumed ∧ (s.run code d h).log = s.log := by
  cases hpc : (s.frames h).pc with
  | runs st =>
    cases hcode : code st with
    | coReturn v =>
      simp only [State.run, hpc, hcode]
      exact (s.finish h (.ok v)).finalTransfer_unchanged d h
    | throws e =>
      simp only [State.run, hpc, hcode]
      exact (s.finish h (.error e)).finalTransfer_unchanged d h
    | wait w next =>
      simp only [State.run, hpc, hcode]
      exact ⟨rfl, rfl⟩
    | call eager callee next =>
      cases eager with
      | true =>
        simp only [State.run, hpc, hcode]
        exact ⟨rfl, rfl⟩
      | false =>
        simp only [State.run, hpc, hcode]
        cases d <;> exact ⟨rfl, rfl⟩
  | awaiting child next =>
    simp only [State.run, hpc]
    exact s.get_unchanged h child next
  | suspended | starting | final => simp only [State.run, hpc, and_self]

theorem looping_step (h : Looping s) (hstep : Step code deep s s') : Looping s' := by
  have hother : (s'.resumed ≠ none) → Looping s' := fun hne =>
    ⟨fun h => absurd h hne, fun h => absurd h hne, fun h => absurd h hne⟩
  cases hstep with
  | resume x rest hloop hq =>
    cases hpc : (s.frames x).pc with
    | final r =>
      simp only [State.resume, hpc]
      exact ⟨h.running, h.callers, h.pending⟩
    | runs | suspended | starting | awaiting =>
      apply hother
      simp only [State.resume, hpc]
      rintro ⟨⟩
  | run x hrunning =>
    apply hother
    rw [(s.run_unchanged code (deep s) x).1]
    intro hnone
    rw [h.running hnone] at hrunning
    cases hrunning
  | ready x st w next a hrunning _ _ =>
    apply hother
    intro hnone
    rw [h.running hnone] at hrunning
    cases hrunning
  | back x rest hrunning hcallers =>
    refine hother fun hnone => ?_
    have hresumed : (s.back x rest).resumed = s.resumed := by
      cases hpc : (s.frames x).pc with
      | starting child next =>
        cases hchild : (s.frames child).pc with
        | final | runs | suspended | starting | awaiting => simp only [State.back, hpc, hchild]; rfl
      | runs | suspended | awaiting | final => simp only [State.back, hpc]
    rw [h.callers (hresumed ▸ hnone)] at hcallers
    cases hcallers
  | endResume x _ hrunning hcallers => exact ⟨fun _ => hrunning, fun _ => hcallers, fun _ => rfl⟩
  | destroy x rest hloop _ => exact ⟨h.running, h.callers, h.pending⟩
  | wake own x w next a _ => cases own <;> exact ⟨h.running, h.callers, h.pending⟩
  | takeInbox x rest _ _ => exact ⟨h.running, h.callers, h.pending⟩

theorem Shows.run (code : S → Act S E V W A) {h : Handle} (hs : Shows s c)
    (hrunning : s.running = some h) (d : Bool) :
    ∃ c', Shows (s.run code d h) c' ∧ CallStack.Step (fun st => (code st).plain) c [] c' := by
  cases hs with
  | @running h' ps stack st hrun hqueued hpc hclear hchain =>
    rw [hrunning] at hrun
    cases hrun
    cases hcode : code st with
    | coReturn v =>
      refine ⟨.returned (.ok v) stack, ?_, .result (by rw [hcode, Act.plain])⟩
      simp only [State.run, hpc, hcode]
      exact .finish hqueued hchain (.ok v) d
    | throws e =>
      refine ⟨.returned (.error e) stack, ?_, .result (by rw [hcode, Act.plain])⟩
      simp only [State.run, hpc, hcode]
      exact .finish hqueued hchain (.error e) d
    | wait w next =>
      refine ⟨.waiting w next stack, ?_, .wait (by rw [hcode, Act.plain])⟩
      simp only [State.run, hpc, hcode]
      exact .wait hqueued hclear hchain
    | call eager callee next =>
      refine ⟨.running callee (next :: stack), ?_, .call (by rw [hcode, Act.plain])⟩
      cases eager with
      | true =>
        simp only [State.run, hpc, hcode]
        exact .callEager hqueued hclear hchain callee next
      | false =>
        simp only [State.run, hpc, hcode]
        exact .callLazy hqueued hclear hchain d callee next
  | @receiving p e ps next stack r hrun hqueued hpc hclear he hfinal hchain =>
    rw [hrunning] at hrun
    cases hrun
    refine ⟨.running (next r) stack, ?_, .resume r next stack⟩
    simp only [State.run, hpc]
    exact .get hrunning hqueued hclear he hfinal hchain
  | queued hrun _ _ _ _ | suspended hrun _ _ _ _ | handed hrun _ _ _ _ _
  | returning hrun _ _ _ _ _ _ _ | ended hrun _ _ _ _ _ =>
    rw [hrunning] at hrun
    cases hrun

/-- Of the coroutines that have not ended only the innermost one can be suspended. -/
theorem Chained.eq_of_suspended {h x : Handle} {ps callers dying : List Handle}
    {stack : List (Except E V → S)} {w : W} {next : A → S}
    (chain : Chained s h ps stack callers dying) (hpc : (s.frames x).pc = .suspended w next) :
    x = h := by
  have halive : s.alive x = true := by
    by_contra hdead
    rw [Bool.not_eq_true] at hdead
    exact chain.memory.gone x hdead w next hpc
  obtain hmem | hmem := List.mem_append.mp ((chain.memory.alive x).mp halive)
  · obtain rfl | hmem := List.mem_cons.mp hmem
    · rfl
    · obtain ⟨child, next', hpc' | hpc'⟩ := chain.held.pc x hmem <;>
      · rw [hpc] at hpc'
        cases hpc'
  · obtain ⟨r, hr⟩ := chain.final x hmem
    rw [hpc] at hr
    cases hr

theorem Shows.suspended_head {h : Handle} {w : W} {next : A → S} (hs : Shows s c)
    (hpc : (s.frames h).pc = .suspended w next) :
    ∃ ps stack, c = .waiting w next stack ∧ s.running = none ∧ s.queued = [] ∧
      (s.frames h).pendingDestroy = none ∧ Chained s h ps stack s.callers s.dying := by
  cases hs with
  | running _ _ hpc' _ hchain | queued _ _ hpc' _ hchain | receiving _ _ hpc' _ _ _ hchain
  | handed _ _ hpc' _ _ hchain | returning _ _ _ hpc' _ _ _ hchain =>
    rw [← hchain.eq_of_suspended hpc, hpc] at hpc'
    cases hpc'
  | @suspended h' ps stack w' next' hrunning hqueued hpc' hclear hchain =>
    obtain rfl := hchain.eq_of_suspended hpc
    rw [hpc] at hpc'
    cases hpc'
    exact ⟨ps, stack, rfl, hrunning, hqueued, hclear, hchain⟩
  | ended _ _ _ _ hmemory hfinal =>
    have halive : s.alive h = true := by
      by_contra hdead
      rw [Bool.not_eq_true] at hdead
      exact hmemory.gone h hdead w next hpc
    obtain ⟨r, hr⟩ := hfinal h ((hmemory.alive h).mp halive)
    rw [hpc] at hr
    cases hr

/-- Every step of the worker is none, one or two steps of the program. -/
theorem shows_step (hloop : Looping s) (hs : Shows s c) (hstep : Step code deep s s') :
    ∃ c' l, Shows s' c' ∧ s'.log = s.log ++ l ∧
      CallStack.Steps (fun st => (code st).plain) c l c' := by
  have hsilent : Shows s' c → s'.log = s.log → ∃ c' l, Shows s' c' ∧ s'.log = s.log ++ l ∧
      CallStack.Steps (fun st => (code st).plain) c l c' := fun h hlog =>
    ⟨c, [], h, by rw [hlog, List.append_nil], .refl c⟩
  cases hstep with
  | resume x rest hidle hq =>
    obtain ⟨h, _, hlog⟩ := hs.resume (hloop.pending hidle) hq
    exact hsilent h hlog
  | run x hrunning =>
    obtain ⟨c', h, hstep⟩ := hs.run code hrunning (deep s)
    refine ⟨c', [], h, ?_, .single hstep⟩
    rw [List.append_nil, (s.run_unchanged code (deep s) x).2]
  | ready x st w next a hrunning hpc hcode =>
    cases hs with
    | @running h ps stack st' hrun hqueued hpc' hclear hchain =>
      rw [hrunning] at hrun
      cases hrun
      rw [hpc] at hpc'
      cases hpc'
      refine ⟨.running (next a) stack, [(w, a)], .ready a hrunning hqueued hclear hchain, rfl, ?_⟩
      exact .head (l := []) (.wait (by rw [hcode, Act.plain])) (.single (.answer w a next stack))
    | receiving hrun _ hpc' _ _ _ _ =>
      rw [hrunning] at hrun
      cases hrun
      rw [hpc] at hpc'
      cases hpc'
    | queued hrun _ _ _ _ | suspended hrun _ _ _ _ | handed hrun _ _ _ _ _
    | returning hrun _ _ _ _ _ _ _ | ended hrun _ _ _ _ _ =>
      rw [hrunning] at hrun
      cases hrun
  | back x rest hrunning hcallers =>
    obtain ⟨h, _, hlog⟩ := hs.back hrunning hcallers
    exact hsilent h hlog
  | endResume x _ _ _ => exact hsilent hs.endResume rfl
  | destroy x rest hidle hqc =>
    exact hsilent (hs.destroy (hloop.running hidle) (hloop.callers hidle) hqc) rfl
  | wake own x w next a hpc =>
    obtain ⟨ps, stack, rfl, hrunning, hqueued, hclear, hchain⟩ := hs.suspended_head hpc
    refine ⟨.running (next a) stack, [(w, a)], .wake own a hrunning hqueued hclear hchain, ?_,
      .single (.answer w a next stack)⟩
    cases own <;> rfl
  | takeInbox x rest _ hinbox => exact hsilent (hs.takeInbox hinbox) rfl

theorem shows_spawn (root : S) : Shows (.spawn root : State S E V W A) (.running root []) := by
  refine .queued (h := 0) rfl rfl rfl rfl ⟨.root rfl rfl, ?_, ?_, rfl⟩
  · refine ⟨by simp [State.dying, State.spawn], fun x => ?_, fun x hx => ?_, ?_, rfl⟩
    · change decide (x = 0) = true ↔ x ∈ [0]
      rw [decide_eq_true_iff, List.mem_singleton]
    · obtain rfl := List.mem_singleton.mp hx
      exact Nat.zero_lt_one
    · rintro x _ w next ⟨⟩
  · rintro x ⟨⟩

theorem looping_spawn (root : S) : Looping (.spawn root : State S E V W A) :=
  ⟨fun _ => rfl, fun _ => rfl, fun _ => rfl⟩

theorem looping_of_runs (h : Runs code deep root s) : Looping s := by
  induction h with
  | start => exact looping_spawn root
  | step _ hstep ih => exact looping_step ih hstep

/-- Every run is a run of the program. -/
theorem shows_of_runs (h : Runs code deep root s) :
    ∃ c, Shows s c ∧ CallStack.Steps (fun st => (code st).plain) (.running root []) s.log c := by
  induction h with
  | start => exact ⟨_, shows_spawn root, .refl _⟩
  | step h hstep ih =>
    obtain ⟨c, hs, hsteps⟩ := ih
    obtain ⟨c', l, hs', hlog, hsteps'⟩ := shows_step (looping_of_runs h) hs hstep
    rw [hlog]
    exact ⟨c', hs', hsteps.trans hsteps'⟩

/-! ## What the program can do, the worker does -/

/-- When the program can go on, a coroutine runs, is in the run queue or is inside a call. -/
theorem Shows.moves (hs : Shows s c)
    (hstep : CallStack.Step (fun st => (code st).plain) c [] c') :
    (∃ h, s.running = some h) ∨
      s.running = none ∧ (s.callers = [] → ∃ h, s.queued = [h]) := by
  cases hs with
  | running hrunning _ _ _ _ | receiving hrunning _ _ _ _ _ _ => exact .inl ⟨_, hrunning⟩
  | queued hrunning hqueued _ _ _ | handed hrunning hqueued _ _ _ _ =>
    exact .inr ⟨hrunning, fun _ => ⟨_, hqueued⟩⟩
  | returning hrunning _ hcallers _ _ _ _ _ =>
    refine .inr ⟨hrunning, fun hnone => ?_⟩
    rw [hnone] at hcallers
    cases hcallers
  | suspended | ended => cases hstep

/-- The loop comes to the coroutine in the run queue. -/
theorem resumed_of_queued {h : Handle} (hruns : Runs code deep root s) (hs : Shows s c)
    (hidle : s.resumed = none) (hqueued : s.queued = [h]) :
    ∃ s', Runs code deep root s' ∧ Shows s' c ∧ s'.running = some h ∧ s'.log = s.log := by
  cases hq : s.q with
  | cons x rest =>
    obtain ⟨rfl, _⟩ := s.queued_of_q hq hqueued
    obtain ⟨hs', hrunning, hlog⟩ := hs.resume ((looping_of_runs hruns).pending hidle) hq
    exact ⟨_, hruns.step (.resume x rest hidle hq), hs', hrunning, hlog⟩
  | nil =>
    have hinbox : s.inbox = [h] := by rwa [State.queued, hq, List.nil_append] at hqueued
    have hruns' := hruns.step (.takeInbox h [] hidle hinbox)
    have hq' : (s.takeInbox h []).q = [h] := by
      change s.q ++ [h] = [h]
      rw [hq, List.nil_append]
    obtain ⟨hs', hrunning, hlog⟩ :=
      (hs.takeInbox hinbox).resume ((looping_of_runs hruns').pending hidle) hq'
    exact ⟨_, hruns'.step (.resume h [] hidle hq'), hs', hrunning, hlog⟩

theorem running_of_moves (hruns : Runs code deep root s) (hs : Shows s c)
    (hstep : CallStack.Step (fun st => (code st).plain) c [] c') :
    ∃ s' h, Runs code deep root s' ∧ Shows s' c ∧ s'.running = some h ∧ s'.log = s.log := by
  generalize hcs : s.callers = cs
  induction cs generalizing s with
  | nil =>
    obtain ⟨h, hrunning⟩ | ⟨hrunning, hqueued⟩ := hs.moves hstep
    · exact ⟨s, h, hruns, hs, hrunning, rfl⟩
    · obtain ⟨h, hqueued⟩ := hqueued hcs
      cases hresumed : s.resumed with
      | none =>
        obtain ⟨s', hs'⟩ := resumed_of_queued hruns hs hresumed hqueued
        exact ⟨s', h, hs'⟩
      | some x =>
        have hruns' := hruns.step (.endResume x hresumed hrunning hcs)
        obtain ⟨s', hs'⟩ := resumed_of_queued hruns' hs.endResume rfl hqueued
        exact ⟨s', h, hs'⟩
  | cons p cs ih =>
    obtain ⟨h, hrunning⟩ | ⟨hrunning, _⟩ := hs.moves hstep
    · exact ⟨s, h, hruns, hs, hrunning, rfl⟩
    · obtain ⟨hback, hcallers, hlog⟩ := hs.back hrunning hcs
      obtain ⟨s', h, hruns', hs', hrunning', hlog'⟩ :=
        ih (hruns.step (.back p cs hrunning hcs)) hback hcallers
      exact ⟨s', h, hruns', hs', hrunning', hlog'.trans hlog⟩

/-- A step of the program is made by the worker. -/
theorem runs_of_step (hruns : Runs code deep root s) (hs : Shows s c)
    (hstep : CallStack.Step (fun st => (code st).plain) c l c') :
    ∃ s', Runs code deep root s' ∧ Shows s' c' ∧ s'.log = s.log ++ l := by
  have hsilent : CallStack.Step (fun st => (code st).plain) c [] c' →
      ∃ s', Runs code deep root s' ∧ Shows s' c' ∧ s'.log = s.log ++ [] := by
    intro hstep
    obtain ⟨s', h, hruns', hs', hrunning, hlog⟩ := running_of_moves hruns hs hstep
    obtain ⟨c'', hs'', hstep'⟩ := hs'.run code hrunning (deep s')
    rw [CallStack.eq_of_step hstep hstep']
    refine ⟨_, hruns'.step (.run h hrunning), hs'', ?_⟩
    rw [List.append_nil, (s'.run_unchanged code (deep s') h).2, hlog]
  cases hstep with
  | result hcode => exact hsilent (.result hcode)
  | wait hcode => exact hsilent (.wait hcode)
  | call hcode => exact hsilent (.call hcode)
  | resume r next stack => exact hsilent (.resume r next stack)
  | answer w a next stack =>
    cases hs with
    | suspended hrunning hqueued hpc hclear hchain =>
      exact ⟨_, hruns.step (.wake true _ w next a hpc),
        .wake true a hrunning hqueued hclear hchain, rfl⟩

theorem runs_of_steps (hsteps : CallStack.Steps (fun st => (code st).plain) c l c')
    (hruns : Runs code deep root s) (hs : Shows s c) :
    ∃ s', Runs code deep root s' ∧ Shows s' c' ∧ s'.log = s.log ++ l := by
  induction hsteps with
  | refl => exact ⟨s, hruns, hs, (List.append_nil s.log).symm⟩
  | tail _ hstep ih =>
    obtain ⟨s', hruns', hs', hlog⟩ := ih
    obtain ⟨s'', hruns'', hs'', hlog'⟩ := runs_of_step hruns' hs' hstep
    exact ⟨s'', hruns'', hs'', by rw [hlog', hlog, List.append_assoc]⟩

/-! ## The task as a whole -/

theorem Shows.eq_returned {r : Except E V} (hs : Shows s c) (hstored : s.stored = some r) :
    c = .returned r [] := by
  have hnone : s.stored ≠ none := fun hnone => by
    rw [hnone] at hstored
    cases hstored
  cases hs with
  | running _ _ _ _ hchain | queued _ _ _ _ hchain | suspended _ _ _ _ hchain
  | receiving _ _ _ _ _ _ hchain | handed _ _ _ _ _ hchain | returning _ _ _ _ _ _ _ hchain =>
    exact absurd hchain.stored hnone
  | ended _ _ _ hstored' _ _ =>
    rw [hstored'] at hstored
    cases hstored
    rfl

/-- The task can end with a result and these answers just when the program, whose awaits are
ordinary calls, evaluates to it, wherever the stack is too deep. -/
theorem task_ends_iff (code : S → Act S E V W A) (deep : State S E V W A → Bool) (root : S)
    (tr : List (W × A)) (r : Except E V) :
    (∃ s, Runs code deep root s ∧ s.stored = some r ∧ s.log = tr) ↔
      CallStack.Evaluates (fun st => (code st).plain) root tr r := by
  rw [CallStack.evaluates_iff_steps]
  constructor
  · rintro ⟨s, hruns, hstored, rfl⟩
    obtain ⟨c, hs, hsteps⟩ := shows_of_runs hruns
    rwa [← hs.eq_returned hstored]
  · intro hsteps
    obtain ⟨s, hruns, hs, hlog⟩ := runs_of_steps hsteps .start (shows_spawn root)
    cases hs with
    | ended _ _ _ hstored _ _ => exact ⟨s, hruns, hstored, hlog⟩

def relay : Nat → Act Nat Empty Nat Unit Nat
  | 0 => .call true 1 fun | .ok v => v + 10
  | 1 => .wait () (· + 2)
  | n => .coReturn n

/-- Until then it has only got answers that the program can get. -/
theorem log_performs (h : Runs code deep root s) :
    CallStack.Performs (fun st => (code st).plain) root s.log := by
  obtain ⟨c, _, hsteps⟩ := shows_of_runs h
  exact CallStack.performs_of_steps hsteps

theorem log_performs_relay :
    CallStack.Performs (fun st => (relay st).plain) 0 [((), 5)] := by
  have h₀ : Runs relay (fun _ => true) 0 (.spawn 0) := .start
  have h₁ := h₀.step (.takeInbox 0 [] rfl rfl)
  have h₂ := h₁.step (.resume 0 [] rfl rfl)
  have h₃ := h₂.step (.run 0 rfl)
  have h₄ := h₃.step (.ready 1 1 () (· + 2) 5 rfl rfl rfl)
  exact log_performs h₄

/-- No memory is accessed that is not a frame, and when the task has ended and what was to be
destroyed is, no frame is left. -/
theorem frames_destroyed (h : Runs code deep root s) :
    s.faults = false ∧
      ((∃ r, s.stored = some r) → s.resumed = none → s.qc = [] → ∀ x, s.alive x = false) := by
  obtain ⟨c, hs, _⟩ := shows_of_runs h
  refine ⟨?_, ?_⟩
  · cases hs with
    | running _ _ _ _ hchain | queued _ _ _ _ hchain | suspended _ _ _ _ hchain
    | receiving _ _ _ _ _ _ hchain | handed _ _ _ _ _ hchain | returning _ _ _ _ _ _ _ hchain =>
      exact hchain.memory.clean
    | ended _ _ _ _ hmemory _ => exact hmemory.clean
  · rintro ⟨r, hstored⟩ hidle hqc x
    obtain rfl := hs.eq_returned hstored
    cases hs with
    | ended _ _ _ _ hmemory _ =>
      have hnone : s.dying = [] := by
        rw [State.dying, hqc, (looping_of_runs h).pending hidle]
        rfl
      rw [hnone] at hmemory
      refine Bool.eq_false_iff.mpr fun halive => ?_
      cases (hmemory.alive x).mp halive

theorem frames_destroyed_relay : ∃ s : State Nat Empty Nat Unit Nat,
    Runs relay (fun _ => false) 0 s ∧ s.stored = some (.ok 17) ∧ s.faults = false ∧
      ∀ x, s.alive x = false := by
  have h₀ : Runs relay (fun _ => false) 0 (.spawn 0) := .start
  have h₁ := h₀.step (.takeInbox 0 [] rfl rfl)
  have h₂ := h₁.step (.resume 0 [] rfl rfl)
  have h₃ := h₂.step (.run 0 rfl)
  have h₄ := h₃.step (.ready 1 1 () (· + 2) 5 rfl rfl rfl)
  have h₅ := h₄.step (.run 1 rfl)
  have h₆ := h₅.step (.back 0 [] rfl rfl)
  have h₇ := h₆.step (.run 0 rfl)
  have h₈ := h₇.step (.run 0 rfl)
  have h₉ := h₈.step (.endResume 0 rfl rfl rfl)
  have h₁₀ := h₉.step (.destroy 1 [0] rfl rfl)
  have h₁₁ := h₁₀.step (.destroy 0 [] rfl rfl)
  exact ⟨_, h₁₁, rfl, (frames_destroyed h₁₁).1, (frames_destroyed h₁₁).2 ⟨_, rfl⟩ rfl rfl⟩

/-- While the loop has nothing to resume, the task has ended, or just the coroutine is suspended
that the program waits in. -/
theorem suspended_of_idle (h : Runs code deep root s) (hidle : s.resumed = none) (hq : s.q = [])
    (hinbox : s.inbox = []) :
    (∃ r, s.stored = some r) ∨
      ∃ x w next stack, s.alive x = true ∧ (s.frames x).pc = .suspended w next ∧
        (∀ y w' next', (s.frames y).pc = .suspended w' next' → y = x) ∧
        CallStack.Steps (fun st => (code st).plain) (.running root []) s.log
          (.waiting w next stack) := by
  obtain ⟨c, hs, hsteps⟩ := shows_of_runs h
  have hloop := looping_of_runs h
  have hnone : s.queued = [] := by rw [State.queued, hq, hinbox]; rfl
  cases hs with
  | running hrunning _ _ _ _ | receiving hrunning _ _ _ _ _ _ =>
    rw [hloop.running hidle] at hrunning
    cases hrunning
  | queued _ hqueued _ _ _ | handed _ hqueued _ _ _ _ =>
    rw [hnone] at hqueued
    cases hqueued
  | returning _ _ hcallers _ _ _ _ _ =>
    rw [hloop.callers hidle] at hcallers
    cases hcallers
  | ended _ _ _ hstored _ _ => exact .inl ⟨_, hstored⟩
  | @suspended x ps stack w next _ _ hpc _ hchain =>
    refine .inr ⟨x, w, next, stack, ?_, hpc, ?_, hsteps⟩
    · exact (hchain.memory.alive x).mpr hchain.mem_live
    · exact fun y w' next' hpc' => hchain.eq_of_suspended hpc'

theorem suspended_of_idle_relay : ∃ next stack,
    CallStack.Steps (fun st => (relay st).plain) (.running 0 []) [] (.waiting () next stack) := by
  have h₀ : Runs relay (fun _ => false) 0 (.spawn 0) := .start
  have h₁ := h₀.step (.takeInbox 0 [] rfl rfl)
  have h₂ := h₁.step (.resume 0 [] rfl rfl)
  have h₃ := h₂.step (.run 0 rfl)
  have h₄ := h₃.step (.run 1 rfl)
  have h₅ := h₄.step (.back 0 [] rfl rfl)
  have h₆ := h₅.step (.endResume 0 rfl rfl rfl)
  obtain ⟨r, hr⟩ | ⟨_, _, next, stack, _, _, _, hsteps⟩ := suspended_of_idle h₆ rfl rfl rfl
  · cases hr
  · exact ⟨next, stack, hsteps⟩

end Runs

end Uvent.Tasks.Coroutines
