import Uvent.Tasks.Cancellation

/-!
# The frames of a task

A frame that is neither new, nor at a `co_yield`, nor at its end is inside the
task; the frame that awaits it points to it.  So from every frame inside the task
the links lead down to it.  Only one frame of the task runs, and only a frame
that is parked is in a wait list.
-/

namespace Uvent.Tasks

def Mode.inside : Mode → Bool
  | .fresh | .yielded | .finished => false
  | _ => true

structure Shape (s : Task) : Prop where
  linked : ∀ c p, (s.mode c).inside = true → s.prev c = some p →
    s.mode p = .awaiting ∧ s.next p = some c
  rooted : s.prev 0 = none
  rootCode : s.mode 0 ≠ .yielded
  rootMade : 0 < s.created
  bound : ∀ f, s.created ≤ f → s.mode f = .fresh ∧ s.prev f = none
  armed : ∀ f, s.mode f = .parked → s.hook f = true ∧ s.attached f = true

structure Below (s : Task) (below : List Nat) : Prop where
  nodup : below.Nodup
  calling : ∀ f ∈ below, s.mode f = .calling

def Worker.early : Worker → Bool
  | .shared | .stamp | .probe | .shake _ => true
  | _ => false

structure Driven (s : Task) : Prop where
  active : ∀ f point below, s.worker = .running f point below → s.mode f = .running ∧ Below s below
  early : s.worker.early = true → ∀ f, s.mode f = .fresh
  held : ∀ f, s.attached f = true → s.mode f = .parked ∨
    ∃ point below, s.worker = .running f point below ∧ (point = .arm ∨ point = .detach)
  socket : ∀ f below, s.worker = .running f .sockPark below → s.hook f = true

section Shape

variable {s : Task} {f g p : Nat} {m : Mode}

theorem Shape.lt_created (h : Shape s) (hf : s.mode f ≠ .fresh) : f < s.created := by
  by_contra hle
  exact hf (h.bound f (by omega)).1

/-- Nobody inside the task is awaited by a frame that does not await. -/
theorem Shape.childless (h : Shape s) (hf : s.mode f ≠ .awaiting) :
    ∀ c, (s.mode c).inside = true → s.prev c ≠ some f :=
  fun c hc hprev => hf (h.linked c f hc hprev).1

theorem Shape.setMode (h : Shape s)
    (hchild : ∀ c, (s.mode c).inside = true → s.prev c ≠ some f)
    (hup : ∀ p, m.inside = true → s.prev f = some p → s.mode p = .awaiting ∧ s.next p = some f)
    (hlt : f < s.created) (hpark : m = .parked → s.hook f = true ∧ s.attached f = true)
    (hroot : m = .yielded → f ≠ 0) : Shape (s.setMode f m) := by
  have hself : (s.setMode f m).mode f = m := Function.update_self ..
  have hother : ∀ c, c ≠ f → (s.setMode f m).mode c = s.mode c :=
    fun c hc => Function.update_of_ne hc ..
  -- the frame that awaits `f` is another one
  have hup_ne : ∀ p, s.mode p = .awaiting → s.prev f = some p → p ≠ f := by
    rintro p hp hprev rfl
    exact hchild p (by rw [hp]; rfl) hprev
  refine ⟨?_, h.rooted, ?_, h.rootMade, ?_, ?_⟩
  · intro c p hc hprev
    have hprev' : s.prev c = some p := hprev
    by_cases hcf : c = f
    · subst hcf
      rw [hself] at hc
      obtain ⟨hp, hnext⟩ := hup p hc hprev'
      have hne : p ≠ c := hup_ne p hp hprev'
      exact ⟨(hother p hne).trans hp, hnext⟩
    · rw [hother c hcf] at hc
      obtain ⟨hp, hnext⟩ := h.linked c p hc hprev'
      have hne : p ≠ f := fun hpf => hchild c hc (hpf ▸ hprev')
      exact ⟨(hother p hne).trans hp, hnext⟩
  · by_cases hf : 0 = f
    · rw [hf, hself]
      exact fun hm => hroot hm hf.symm
    · rw [hother 0 hf]
      exact h.rootCode
  · intro x hx
    have hx' : s.created ≤ x := hx
    exact ⟨(hother x (by omega)).trans (h.bound x hx').1, (h.bound x hx').2⟩
  · intro x hx
    by_cases hxf : x = f
    · subst hxf
      rw [hself] at hx
      exact hpark hx
    · rw [hother x hxf] at hx
      exact h.armed x hx

theorem Shape.switch (h : Shape s) (hin : (s.mode f).inside = true) (hf : s.mode f ≠ .awaiting)
    (hpark : m = .parked → s.hook f = true ∧ s.attached f = true)
    (hroot : m = .yielded → f ≠ 0) : Shape (s.setMode f m) := by
  refine h.setMode (h.childless hf) (fun p _ hprev => h.linked f p hin hprev)
    (h.lt_created ?_) hpark hroot
  intro hfresh
  rw [hfresh] at hin
  simp [Mode.inside] at hin

/-- `f` starts to await `g`. -/
theorem Shape.await (h : Shape s) (hf : s.mode f = .running) (hgf : g ≠ f) (hg : g ≠ 0)
    (hglt : g < s.created) :
    Shape (((s.setNext f (some g)).setPrev g (some f)).setMode f .awaiting) := by
  have hchild := h.childless (f := f) (by rw [hf]; simp)
  have hmode : ∀ c, c ≠ f →
      (((s.setNext f (some g)).setPrev g (some f)).setMode f .awaiting).mode c = s.mode c :=
    fun c hc => Function.update_of_ne hc ..
  refine ⟨?_, ?_, ?_, h.rootMade, ?_, ?_⟩
  · intro c p hc hprev
    by_cases hcg : c = g
    · subst hcg
      have hprev' : Function.update s.prev c (some f) c = some p := hprev
      rw [Function.update_self] at hprev'
      obtain rfl := Option.some.inj hprev'
      exact ⟨Function.update_self .., Function.update_self ..⟩
    · have hprev' : s.prev c = some p := (Function.update_of_ne hcg ..).symm.trans hprev
      have hin : (s.mode c).inside = true := by
        by_cases hcf : c = f
        · rw [hcf, hf]
          rfl
        · rw [← hmode c hcf]
          exact hc
      obtain ⟨hp, hnext⟩ := h.linked c p hin hprev'
      have hpf : p ≠ f := by
        rintro rfl
        exact hchild c hin hprev'
      exact ⟨(hmode p hpf).trans hp, (Function.update_of_ne hpf ..).trans hnext⟩
  · exact (Function.update_of_ne (Ne.symm hg) ..).trans h.rooted
  · by_cases h0 : 0 = f
    · rw [h0]
      refine fun habs => absurd (habs.symm.trans (Function.update_self ..)) (by simp)
    · rw [hmode 0 h0]
      exact h.rootCode
  · intro x hx
    have hx' : s.created ≤ x := hx
    have hlt : f < s.created := h.lt_created (by rw [hf]; simp)
    obtain ⟨hfresh, hprev⟩ := h.bound x hx'
    exact ⟨(hmode x (by omega)).trans hfresh, (Function.update_of_ne (by omega) ..).trans hprev⟩
  · intro x hx
    by_cases hxf : x = f
    · subst hxf
      exact absurd (hx.symm.trans (Function.update_self ..)) (by simp)
    · rw [hmode x hxf] at hx
      exact h.armed x hx

end Shape

/-! ## The owner's steps -/

structure Framed (s : Task) : Prop where
  shape : Shape s
  driven : Driven s

section Steps

variable {s : Task} {f g p : Nat} {m : Mode} {below : List Nat} {point : Point} {deep : Bool}

def OnlyParked (s : Task) : Prop := ∀ f, s.attached f = true → s.mode f = .parked

theorem Below.setMode (h : Below s below) (hf : s.mode f ≠ .calling) :
    Below (s.setMode f m) below := by
  refine ⟨h.nodup, fun b hb => ?_⟩
  have hbf : b ≠ f := by
    rintro rfl
    exact hf (h.calling b hb)
  exact (Function.update_of_ne hbf ..).trans (h.calling b hb)

theorem OnlyParked.setMode (h : OnlyParked s) (hf : s.mode f ≠ .parked) :
    OnlyParked (s.setMode f m) := by
  intro x hx
  have hxf : x ≠ f := by
    rintro rfl
    exact hf (h x hx)
  exact (Function.update_of_ne hxf ..).trans (h x hx)

theorem Shape.leave (h : Shape s) (hbelow : Below s below) (honly : OnlyParked s) :
    Framed (s.leave below) := by
  cases below with
  | nil =>
      refine ⟨⟨h.linked, h.rooted, h.rootCode, h.rootMade, h.bound, h.armed⟩, ?_, ?_,
        fun x hx => .inl (honly x hx), by simp [Task.leave]⟩
      · exact fun _ _ _ habs => by simp [Task.leave] at habs
      · simp [Task.leave, Worker.early]
  | cons b below =>
      have hb : s.mode b = .calling := hbelow.calling b (List.mem_cons_self ..)
      have hshape : Shape (s.setMode b .running) :=
        h.switch (by rw [hb]; rfl) (by rw [hb]; simp) (by simp) (by simp)
      have honly' : OnlyParked (s.setMode b .running) := honly.setMode (by rw [hb]; simp)
      refine ⟨⟨hshape.linked, hshape.rooted, hshape.rootCode, hshape.rootMade, hshape.bound,
        hshape.armed⟩, ?_, ?_,
        fun x hx => .inl (honly' x hx), by simp [Task.leave]⟩
      · intro f point below' hrun
        simp only [Task.leave, Worker.running.injEq] at hrun
        obtain ⟨rfl, -, rfl⟩ := hrun
        refine ⟨Function.update_self .., (List.nodup_cons.mp hbelow.nodup).2, fun x hx => ?_⟩
        have hxb : x ≠ b := by
          rintro rfl
          exact (List.nodup_cons.mp hbelow.nodup).1 hx
        exact (Function.update_of_ne hxb ..).trans (hbelow.calling x (List.mem_cons_of_mem _ hx))
      · simp [Task.leave, Worker.early]

theorem Shape.run (h : Shape s) (hg : s.mode g = .running) (hbelow : Below s below)
    (honly : ∀ x, s.attached x = true → s.mode x = .parked ∨
      (x = g ∧ (point = .arm ∨ point = .detach)))
    (hsocket : point = .sockPark → s.hook g = true) :
    Framed { s with worker := .running g point below } := by
  refine ⟨⟨h.linked, h.rooted, h.rootCode, h.rootMade, h.bound, h.armed⟩, ?_,
    by simp [Worker.early], ?_, ?_⟩
  · intro f point' below' hrun
    simp only [Worker.running.injEq] at hrun
    obtain ⟨rfl, -, rfl⟩ := hrun
    exact ⟨hg, hbelow.nodup, hbelow.calling⟩
  · intro x hx
    rcases honly x hx with hpark | ⟨rfl, hpoint⟩
    · exact .inl hpark
    · exact .inr ⟨point, below, rfl, hpoint⟩
  · intro f below' hrun
    simp only [Worker.running.injEq] at hrun
    obtain ⟨rfl, hpoint, -⟩ := hrun
    exact hsocket hpoint

theorem Shape.handOver (h : Shape s)
    (hchild : ∀ c, (s.mode c).inside = true → s.prev c ≠ some g)
    (hup : ∀ p, s.prev g = some p → s.mode p = .awaiting ∧ s.next p = some g)
    (hlt : g < s.created) (hcall : s.mode g ≠ .calling) (hpark : s.mode g ≠ .parked)
    (hbelow : Below s below) (honly : OnlyParked s) : Framed (s.handOver deep g below) := by
  have hset : ∀ m : Mode, m ≠ .parked → m ≠ .yielded → Shape (s.setMode g m) :=
    fun m hmp hmy => h.setMode hchild (fun p _ hprev => hup p hprev) hlt
      (fun hm => absurd hm hmp) (fun hm => absurd hm hmy)
  have honly' : ∀ m : Mode, OnlyParked (s.setMode g m) := fun m => honly.setMode hpark
  unfold Task.handOver
  cases deep with
  | true =>
      rw [if_pos rfl]
      exact (hset .queued (by simp) (by simp)).leave (hbelow.setMode hcall) (honly' _)
  | false =>
      rw [if_neg (by simp)]
      exact (hset .running (by simp) (by simp)).run (Function.update_self ..)
        (hbelow.setMode hcall) (fun x hx => .inl (honly' _ x hx)) (by simp)

structure InCode (s : Task) (f : Nat) (below : List Nat) : Prop where
  running : s.mode f = .running
  below : Below s below
  only : OnlyParked s

theorem Framed.inCode (h : Framed s) (hrun : s.worker = .running f point below)
    (hpoint : point ≠ .arm ∧ point ≠ .detach) : InCode s f below := by
  obtain ⟨hf, hbelow⟩ := h.driven.active f point below hrun
  refine ⟨hf, hbelow, fun x hx => ?_⟩
  rcases h.driven.held x hx with hpark | ⟨point', below', hrun', hpoint'⟩
  · exact hpark
  · rw [hrun] at hrun'
    simp only [Worker.running.injEq] at hrun'
    obtain ⟨-, rfl, -⟩ := hrun'
    exact absurd hpoint' (by simp [hpoint.1, hpoint.2])

theorem Framed.let_go (h : Framed s) (hcode : InCode s f below) (hin : m ≠ .parked)
    (hyield : m ≠ .yielded) : Framed ((s.setMode f m).leave below) := by
  have hf := hcode.running
  refine Shape.leave (h.shape.switch (by rw [hf]; rfl) (by rw [hf]; simp) (fun hm => absurd hm hin)
    fun hm => absurd hm hyield) (hcode.below.setMode (by rw [hf]; simp))
    (hcode.only.setMode (by rw [hf]; simp))

theorem Shape.grow (h : Shape s) : Shape { s with created := s.created + 1 } :=
  ⟨h.linked, h.rooted, h.rootCode, Nat.succ_pos _, fun x hx => h.bound x (Nat.le_of_succ_le hx),
    h.armed⟩

theorem Framed.call (h : Framed s) (hcode : InCode s f below) : Framed (s.call f deep below) := by
  have hf := hcode.running
  have hlt : f < s.created := h.shape.lt_created (by rw [hf]; simp)
  have hshape : Shape { ((s.setNext f (some s.created)).setPrev s.created
      (some f)).setMode f .awaiting with created := s.created + 1 } :=
    h.shape.grow.await (g := s.created) hf (by omega) (by omega) (Nat.lt_succ_self _)
  have hgmode : (((s.setNext f (some s.created)).setPrev s.created
      (some f)).setMode f .awaiting).mode s.created = .fresh :=
    (Function.update_of_ne (by omega) ..).trans (h.shape.bound _ (Nat.le_refl _)).1
  refine hshape.handOver (hshape.childless ?_) ?_ (Nat.lt_succ_self _) ?_ ?_ ?_ ?_
  · exact fun habs => absurd (hgmode.symm.trans habs) (by simp)
  · intro p hprev
    have hprev' : Function.update s.prev s.created (some f) s.created = some p := hprev
    rw [Function.update_self] at hprev'
    obtain rfl := Option.some.inj hprev'
    exact ⟨Function.update_self .., Function.update_self ..⟩
  · exact fun habs => absurd (hgmode.symm.trans habs) (by simp)
  · exact fun habs => absurd (hgmode.symm.trans habs) (by simp)
  · exact ⟨hcode.below.nodup,
      (hcode.below.setMode (f := f) (m := .awaiting) (by rw [hf]; simp)).calling⟩
  · exact fun x hx => hcode.only.setMode (f := f) (m := .awaiting) (by rw [hf]; simp) x hx

theorem Framed.finish (h : Framed s) (hcode : InCode s f below) : Framed (s.finish f deep below) := by
  have hf := hcode.running
  have hin : (s.mode f).inside = true := by rw [hf]; rfl
  have hlt : f < s.created := h.shape.lt_created (by rw [hf]; simp)
  unfold Task.finish
  split
  · rename_i p hprev
    obtain ⟨hp, hnext⟩ := h.shape.linked f p hin hprev
    have hpf : p ≠ f := by
      rintro rfl
      rw [hf] at hp
      simp at hp
    have hmode : ∀ x, x ≠ f → (((s.setPrev f none).setNext p none).setMode f .finished).mode x =
        s.mode x := fun x hx => Function.update_of_ne hx ..
    -- `f` was the only frame inside the task that `p` awaits
    have hchild : ∀ c, ((((s.setPrev f none).setNext p none).setMode f .finished).mode c).inside =
        true → (Function.update s.prev f none) c ≠ some p := by
      intro c hc hprev'
      have hcf : c ≠ f := by
        rintro rfl
        rw [Function.update_self] at hprev'
        simp at hprev'
      rw [Function.update_of_ne hcf] at hprev'
      rw [hmode c hcf] at hc
      have hnext' := (h.shape.linked c p hc hprev').2
      exact hcf (Option.some.inj (hnext'.symm.trans hnext))
    have hshape : Shape (((s.setPrev f none).setNext p none).setMode f .finished) := by
      refine ⟨?_, ?_, ?_, h.shape.rootMade, ?_, ?_⟩
      · intro c q hc hprev'
        have hqp : q ≠ p := by
          rintro rfl
          exact hchild c hc hprev'
        have hcf : c ≠ f := by
          rintro rfl
          have : (((s.setPrev c none).setNext p none).setMode c .finished).mode c = .finished :=
            Function.update_self ..
          rw [this] at hc
          simp [Mode.inside] at hc
        have hprev'' : s.prev c = some q := (Function.update_of_ne hcf ..).symm.trans hprev'
        rw [hmode c hcf] at hc
        obtain ⟨hq, hnext'⟩ := h.shape.linked c q hc hprev''
        have hqf : q ≠ f := by
          rintro rfl
          rw [hf] at hq
          simp at hq
        exact ⟨(hmode q hqf).trans hq, (Function.update_of_ne hqp ..).trans hnext'⟩
      · by_cases h0 : 0 = f
        · rw [h0]
          exact Function.update_self ..
        · exact (Function.update_of_ne h0 ..).trans h.shape.rooted
      · by_cases h0 : 0 = f
        · rw [h0]
          exact fun habs => absurd (habs.symm.trans (Function.update_self ..)) (by simp)
        · rw [hmode 0 h0]
          exact h.shape.rootCode
      · intro x hx
        have hx' : s.created ≤ x := hx
        obtain ⟨hfresh, hnone⟩ := h.shape.bound x hx'
        exact ⟨(hmode x (by omega)).trans hfresh, (Function.update_of_ne (by omega) ..).trans hnone⟩
      · intro x hx
        by_cases hxf : x = f
        · rw [hxf] at hx
          exact absurd (hx.symm.trans (Function.update_self ..)) (by simp)
        · rw [hmode x hxf] at hx
          exact h.shape.armed x hx
    have hpmode := (hmode p hpf).trans hp
    refine hshape.handOver hchild ?_ (h.shape.lt_created (by rw [hp]; simp)) ?_ ?_ ?_ ?_
    · intro q hq
      have hq' : s.prev p = some q := (Function.update_of_ne hpf ..).symm.trans hq
      obtain ⟨hqmode, hqnext⟩ := h.shape.linked p q (by rw [hp]; rfl) hq'
      have hqf : q ≠ f := by
        rintro rfl
        rw [hf] at hqmode
        simp at hqmode
      have hqp : q ≠ p := by
        rintro rfl
        exact hpf (Option.some.inj (hqnext.symm.trans hnext))
      exact ⟨(hmode q hqf).trans hqmode, (Function.update_of_ne hqp ..).trans hqnext⟩
    · exact fun habs => absurd (hpmode.symm.trans habs) (by simp)
    · exact fun habs => absurd (hpmode.symm.trans habs) (by simp)
    · exact ⟨hcode.below.nodup,
        (hcode.below.setMode (f := f) (m := .finished) (by rw [hf]; simp)).calling⟩
    · exact fun x hx => hcode.only.setMode (f := f) (m := .finished) (by rw [hf]; simp) x hx
  · have hshape : Shape (s.setMode f .finished) :=
      h.shape.switch hin (by rw [hf]; simp) (by simp) (by simp)
    refine Shape.leave ⟨hshape.linked, hshape.rooted, hshape.rootCode, hshape.rootMade, hshape.bound,
        hshape.armed⟩ ?_ ?_
    · exact ⟨hcode.below.nodup,
        (hcode.below.setMode (f := f) (m := .finished) (by rw [hf]; simp)).calling⟩
    · exact fun x hx => hcode.only.setMode (f := f) (m := .finished) (by rw [hf]; simp) x hx

/-- The frame yields; the one that awaits it still points to it. -/
theorem Framed.coYield (h : Framed s) (hcode : InCode s f below) (hprev : s.prev f = some p) :
    Framed (s.coYield f p deep below) := by
  have hf := hcode.running
  have hin : (s.mode f).inside = true := by rw [hf]; rfl
  obtain ⟨hp, hnext⟩ := h.shape.linked f p hin hprev
  have hpf : p ≠ f := by
    rintro rfl
    rw [hf] at hp
    simp at hp
  have hf0 : f ≠ 0 := by
    rintro rfl
    rw [h.shape.rooted] at hprev
    simp at hprev
  have hshape : Shape (s.setMode f .yielded) :=
    h.shape.switch hin (by rw [hf]; simp) (by simp) fun _ => hf0
  have hself : (s.setMode f .yielded).mode f = .yielded := Function.update_self ..
  have hpmode : (s.setMode f .yielded).mode p = .awaiting :=
    (Function.update_of_ne hpf ..).trans hp
  refine hshape.handOver ?_ (fun q hq => hshape.linked p q (by rw [hpmode]; rfl) hq)
    (h.shape.lt_created (by rw [hp]; simp)) (by rw [hpmode]; simp) (by rw [hpmode]; simp)
    (hcode.below.setMode (by rw [hf]; simp)) (hcode.only.setMode (by rw [hf]; simp))
  intro c hc hprev'
  have hnext' := (hshape.linked c p hc hprev').2
  obtain rfl := Option.some.inj (hnext'.symm.trans hnext)
  rw [hself] at hc
  simp [Mode.inside] at hc

theorem Framed.again (h : Framed s) (hcode : InCode s f below) (hg : s.mode g = .yielded) :
    Framed (s.again f g deep below) := by
  have hf := hcode.running
  have hgf : g ≠ f := by
    rintro rfl
    rw [hf] at hg
    simp at hg
  have hg0 : g ≠ 0 := by
    rintro rfl
    exact h.shape.rootCode hg
  have hshape := h.shape.await hf hgf hg0 (h.shape.lt_created (by rw [hg]; simp))
  have hgmode : (((s.setNext f (some g)).setPrev g (some f)).setMode f .awaiting).mode g =
      .yielded := (Function.update_of_ne hgf ..).trans hg
  refine hshape.handOver (hshape.childless (by rw [hgmode]; simp)) ?_
    (h.shape.lt_created (by rw [hg]; simp)) (by rw [hgmode]; simp) (by rw [hgmode]; simp) ?_ ?_
  · intro p hprev
    have hprev' : Function.update s.prev g (some f) g = some p := hprev
    rw [Function.update_self] at hprev'
    obtain rfl := Option.some.inj hprev'
    exact ⟨Function.update_self .., Function.update_self ..⟩
  · exact ⟨hcode.below.nodup,
      (hcode.below.setMode (f := f) (m := .awaiting) (by rw [hf]; simp)).calling⟩
  · exact fun x hx => hcode.only.setMode (f := f) (m := .awaiting) (by rw [hf]; simp) x hx

theorem Framed.awaitDeferred (h : Framed s) (hcode : InCode s f below)
    (hg : s.mode g ∈ [Mode.queued, .parked, .blocked, .awaiting]) (hg0 : g ≠ 0) :
    Framed (s.awaitDeferred f g below) := by
  have hf := hcode.running
  have hgf : g ≠ f := by
    rintro rfl
    rw [hf] at hg
    simp at hg
  have hglt : g < s.created := by
    refine h.shape.lt_created fun habs => ?_
    rw [habs] at hg
    simp at hg
  refine (h.shape.await hf hgf hg0 hglt).leave ?_ ?_
  · exact ⟨hcode.below.nodup,
      (hcode.below.setMode (f := f) (m := .awaiting) (by rw [hf]; simp)).calling⟩
  · exact fun x hx => hcode.only.setMode (f := f) (m := .awaiting) (by rw [hf]; simp) x hx

theorem Framed.startDeferred (h : Framed s) (hcode : InCode s f below) :
    Framed (s.startDeferred f below) := by
  have hf := hcode.running
  obtain ⟨hfresh, hnone⟩ := h.shape.bound s.created (Nat.le_refl _)
  have hlt : f < s.created := h.shape.lt_created (by rw [hf]; simp)
  have hcall : Shape (s.setMode f .calling) :=
    h.shape.switch (by rw [hf]; rfl) (by rw [hf]; simp) (by simp) (by simp)
  have hnew : (s.setMode f .calling).mode s.created = .fresh :=
    (Function.update_of_ne (by omega) ..).trans hfresh
  have hnew' : ({ s.setMode f .calling with created := s.created + 1 } : Task).mode s.created ≠
      .awaiting := by
    intro habs
    exact absurd (hnew.symm.trans habs) (by simp)
  have honly : OnlyParked (s.setMode f .calling) := hcode.only.setMode (by rw [hf]; simp)
  have hbelow : Below (s.setMode f .calling) (f :: below) := by
    refine ⟨List.nodup_cons.mpr ⟨?_, hcode.below.nodup⟩, ?_⟩
    · intro hmem
      exact absurd (hf.symm.trans (hcode.below.calling f hmem)) (by simp)
    · intro b hb
      rcases List.mem_cons.mp hb with rfl | hmem
      · exact Function.update_self ..
      · exact (hcode.below.setMode (f := f) (m := .calling) (by rw [hf]; simp)).calling b hmem
  have hshape := hcall.grow.setMode (f := s.created) (m := .running)
    (hcall.grow.childless hnew') (fun p _ hprev => absurd (hnone.symm.trans hprev) (by simp))
    (Nat.lt_succ_self _) (by simp) (by simp)
  refine hshape.run (Function.update_self ..) ?_ ?_ (by simp)
  · exact ⟨hbelow.nodup, (hbelow.setMode (f := s.created) (m := .running)
      (by rw [hnew]; simp)).calling⟩
  · intro x hx
    exact .inl (honly.setMode (f := s.created) (m := .running) (by rw [hnew]; simp) x hx)

theorem Shape.setHook {armed : Bool} (h : Shape s) (hf : s.mode f ≠ .parked ∨ armed = true) :
    Shape (s.setHook f armed) := by
  refine ⟨h.linked, h.rooted, h.rootCode, h.rootMade, h.bound, fun x hx => ?_⟩
  obtain ⟨hhook, hattached⟩ := h.armed x hx
  by_cases hxf : x = f
  · subst hxf
    rcases hf with hf | rfl
    · exact absurd hx hf
    · exact ⟨Function.update_self .., hattached⟩
  · exact ⟨(Function.update_of_ne hxf ..).trans hhook, hattached⟩

theorem Shape.setAttached {attached : Bool} (h : Shape s) (hf : s.mode f ≠ .parked) :
    Shape (s.setAttached f attached) := by
  refine ⟨h.linked, h.rooted, h.rootCode, h.rootMade, h.bound, fun x hx => ?_⟩
  obtain ⟨hhook, hattached⟩ := h.armed x hx
  have hxf : x ≠ f := by
    rintro rfl
    exact hf hx
  exact ⟨hhook, (Function.update_of_ne hxf ..).trans hattached⟩

theorem Shape.rest (h : Shape s) (honly : OnlyParked s) (worker : Worker)
    (hrun : ∀ f point below, worker ≠ .running f point below) (hearly : worker.early = false) :
    Framed { s with worker := worker } := by
  refine ⟨⟨h.linked, h.rooted, h.rootCode, h.rootMade, h.bound, h.armed⟩, ?_, ?_,
    fun x hx => .inl (honly x hx), fun f below hw => absurd hw (hrun f _ below)⟩
  · exact fun f point below hw => absurd hw (hrun f point below)
  · simp [hearly]

theorem Framed.onlyParked (h : Framed s)
    (hrun : ∀ f point below, s.worker ≠ .running f point below) : OnlyParked s := by
  intro x hx
  rcases h.driven.held x hx with hpark | ⟨point, below, hw, -⟩
  · exact hpark
  · exact absurd hw (hrun x point below)

theorem Framed.spawning (h : Framed s) (hearly : s.worker.early = true) (worker : Worker)
    (hearly' : worker.early = true) : Framed { s with worker := worker } := by
  have hmode := h.driven.early hearly
  have hrun : ∀ f point below, worker ≠ .running f point below := by
    rintro f point below rfl
    simp [Worker.early] at hearly'
  refine ⟨⟨h.shape.linked, h.shape.rooted, h.shape.rootCode, h.shape.rootMade, h.shape.bound,
    h.shape.armed⟩, fun f point below hw => absurd hw (hrun f point below), fun _ => hmode, ?_,
    fun f below hw => absurd hw (hrun f _ below)⟩
  · intro x hx
    rcases h.driven.held x hx with hpark | ⟨point, below, hw, -⟩
    · exact .inl hpark
    · rw [hw] at hearly
      simp [Worker.early] at hearly

theorem Framed.spawned (h : Framed s) (hearly : s.worker.early = true) :
    Framed { s.setMode 0 .queued with worker := .loop } := by
  have hmode := h.driven.early hearly
  have hshape : Shape (s.setMode 0 .queued) := by
    refine h.shape.setMode (h.shape.childless (by rw [hmode 0]; simp)) ?_ h.shape.rootMade
      (by simp) (by simp)
    intro p _ hprev
    rw [h.shape.rooted] at hprev
    simp at hprev
  have honly : OnlyParked s := by
    refine h.onlyParked fun f point below hw => ?_
    rw [hw] at hearly
    simp [Worker.early] at hearly
  exact hshape.rest (honly.setMode (by rw [hmode 0]; simp)) .loop (by simp) rfl

/-- While `f` runs, the other frames in wait lists are parked. -/
theorem Framed.others (h : Framed s) (hrun : s.worker = .running f point below) :
    ∀ x, x ≠ f → s.attached x = true → s.mode x = .parked := by
  intro x hxf hx
  rcases h.driven.held x hx with hpark | ⟨point', below', hrun', -⟩
  · exact hpark
  · rw [hrun] at hrun'
    simp only [Worker.running.injEq] at hrun'
    exact absurd hrun'.1.symm hxf

theorem Shape.suspend (h : Shape s) (hf : s.mode f = .running) (hbelow : Below s below)
    (hothers : ∀ x, x ≠ f → s.attached x = true → s.mode x = .parked)
    (hhook : s.attached f = true → s.hook f = true) : Framed (s.suspend f below) := by
  have hshape : Shape (s.setMode f (if s.attached f then .parked else .queued)) := by
    refine h.switch (by rw [hf]; rfl) (by rw [hf]; simp) ?_ ?_
    · intro hm
      by_cases ha : s.attached f = true
      · exact ⟨hhook ha, ha⟩
      · rw [if_neg ha] at hm
        simp at hm
    · intro hm
      split at hm <;> simp at hm
  refine hshape.leave (hbelow.setMode (by rw [hf]; simp)) fun x hx => ?_
  have hx' : s.attached x = true := hx
  by_cases hxf : x = f
  · subst hxf
    exact (Function.update_self ..).trans (if_pos hx')
  · exact (Function.update_of_ne hxf ..).trans (hothers x hxf hx')

theorem Shape.unpark {armed : Bool} (h : Shape s) (hf : s.mode f = .parked) :
    Shape (((s.setMode f .queued).setHook f armed).setAttached f false) := by
  have hqueued : (s.setMode f .queued).mode f = .queued := Function.update_self ..
  refine Shape.setAttached (Shape.setHook (h.switch (by rw [hf]; rfl) (by rw [hf]; simp) (by simp)
    (by simp)) (.inl ?_)) ?_
  · rw [hqueued]
    simp
  · exact fun habs => absurd (hqueued.symm.trans habs) (by simp)

theorem Framed.runCancelHook (h : Framed s)
    (hrun : ∀ f point below, s.worker ≠ .running f point below) :
    Shape (s.runCancelHook f) ∧ OnlyParked (s.runCancelHook f) := by
  have honly := h.onlyParked hrun
  unfold Task.runCancelHook
  split
  · rename_i hboth
    have hpark := honly f (Bool.and_eq_true_iff.mp hboth).2
    refine ⟨h.shape.unpark hpark, fun x hx => ?_⟩
    have hxf : x ≠ f := by
      rintro rfl
      exact absurd (hx.symm.trans (Function.update_self ..)) (by simp)
    exact (Function.update_of_ne hxf ..).trans
      (honly x ((Function.update_of_ne hxf ..).symm.trans hx))
  · rename_i hboth
    refine ⟨?_, fun x hx => honly x hx⟩
    refine ⟨h.shape.linked, h.shape.rooted, h.shape.rootCode, h.shape.rootMade, h.shape.bound, ?_⟩
    intro x hx
    obtain ⟨hhook, hattached⟩ := h.shape.armed x hx
    have hxf : x ≠ f := by
      rintro rfl
      exact hboth (by rw [hhook, hattached]; rfl)
    exact ⟨(Function.update_of_ne hxf ..).trans hhook, hattached⟩

theorem Framed.processKick (h : Framed s) (hw : s.worker = .hook) : Framed s.processKick := by
  have hrun : ∀ f point below, s.worker ≠ .running f point below := by simp [hw]
  unfold Task.processKick
  split
  · exact h.shape.rest (h.onlyParked hrun) .loop (by simp) rfl
  · obtain ⟨hshape, honly⟩ := h.runCancelHook (f := s.leafFrom s.created 0) hrun
    exact hshape.rest honly .loop (by simp) rfl

/-- A waiter is fired. -/
theorem Framed.fire (h : Framed s) (hf : s.attached f = true) :
    Framed (if s.mode f = .parked then (s.setAttached f false).setMode f .queued
      else s.setAttached f false) := by
  have hlost : ∀ x, Function.update s.attached f false x = true → x ≠ f ∧ s.attached x = true := by
    intro x hx
    have hxf : x ≠ f := by
      rintro rfl
      rw [Function.update_self] at hx
      simp at hx
    rw [Function.update_of_ne hxf] at hx
    exact ⟨hxf, hx⟩
  split
  · rename_i hpark
    have hmode : ∀ x, x ≠ f → (s.setMode f .queued).mode x = s.mode x :=
      fun x hx => Function.update_of_ne hx ..
    have hshape : Shape ((s.setMode f .queued).setAttached f false) := by
      have hqueued : (s.setMode f .queued).mode f = .queued := Function.update_self ..
      refine Shape.setAttached (h.shape.switch (by rw [hpark]; rfl) (by rw [hpark]; simp) (by simp)
        (by simp)) ?_
      rw [hqueued]
      simp
    refine ⟨hshape, ?_, ?_, ?_, h.driven.socket⟩
    · intro x point below hw
      obtain ⟨hx, hbelow⟩ := h.driven.active x point below hw
      have hxf : x ≠ f := by
        rintro rfl
        rw [hpark] at hx
        simp at hx
      exact ⟨(hmode x hxf).trans hx, hbelow.nodup,
        (hbelow.setMode (f := f) (m := .queued) (by rw [hpark]; simp)).calling⟩
    · intro hearly
      have := h.driven.early hearly f
      rw [hpark] at this
      simp at this
    · intro x hx
      obtain ⟨hxf, hx'⟩ := hlost x hx
      exact (h.driven.held x hx').imp_left (hmode x hxf).trans
  · rename_i hpark
    exact ⟨h.shape.setAttached hpark, fun x point below hw =>
      ⟨(h.driven.active x point below hw).1, (h.driven.active x point below hw).2.nodup,
        (h.driven.active x point below hw).2.calling⟩, h.driven.early,
      fun x hx => h.driven.held x (hlost x hx).2, h.driven.socket⟩

/-- The frame that runs stays in `await_suspend` or goes back to its code, with
its waiter and its hook as they then are. -/
theorem Framed.at_point {s' : Task} (h : Framed s) (hrun : s.worker = .running f point below)
    (attached armed : Bool) {point' : Point}
    (hs' : s' = (s.setAttached f attached).setHook f armed)
    (hpoint : attached = true → point' = .arm ∨ point' = .detach)
    (hsocket : point' = .sockPark → armed = true) :
    Framed { s' with worker := .running f point' below } := by
  subst hs'
  obtain ⟨hf, hbelow⟩ := h.driven.active f point below hrun
  have hothers := h.others hrun
  have hshape : Shape ((s.setAttached f attached).setHook f armed) :=
    (h.shape.setAttached (by rw [hf]; simp)).setHook (.inl fun habs => by
      exact absurd (hf.symm.trans habs) (by simp))
  refine hshape.run hf ⟨hbelow.nodup, hbelow.calling⟩ (fun x hx => ?_)
    fun hp => (Function.update_self ..).trans (hsocket hp)
  have hx' : Function.update s.attached f attached x = true := hx
  by_cases hxf : x = f
  · subst hxf
    rw [Function.update_self] at hx'
    exact .inr ⟨rfl, hpoint hx'⟩
  · rw [Function.update_of_ne hxf] at hx'
    exact .inl (hothers x hxf hx')

theorem setHook_self (s : Task) (f : Nat) : s.setHook f (s.hook f) = s := by
  unfold Task.setHook
  rw [Function.update_eq_self]

theorem setAttached_self (s : Task) (f : Nat) : s.setAttached f (s.attached f) = s := by
  unfold Task.setAttached
  rw [Function.update_eq_self]

/-- `kick` touches neither the frames nor the worker. -/
theorem Framed.kick (h : Framed s) (alive : Bool) (pc : KickPc) : Framed (s.kick alive pc).1 := by
  cases pc with
  | load => exact h
  | flag => exact ⟨⟨h.shape.linked, h.shape.rooted, h.shape.rootCode, h.shape.rootMade,
      h.shape.bound, h.shape.armed⟩, ⟨fun f point below hw =>
        ⟨(h.driven.active f point below hw).1, (h.driven.active f point below hw).2.nodup,
          (h.driven.active f point below hw).2.calling⟩,
        h.driven.early, h.driven.held, h.driven.socket⟩⟩
  | push =>
      unfold Task.kick
      dsimp only
      split <;> exact ⟨⟨h.shape.linked, h.shape.rooted, h.shape.rootCode, h.shape.rootMade,
        h.shape.bound, h.shape.armed⟩, ⟨fun f point below hw =>
          ⟨(h.driven.active f point below hw).1, (h.driven.active f point below hw).2.nodup,
            (h.driven.active f point below hw).2.calling⟩,
          h.driven.early, h.driven.held, h.driven.socket⟩⟩

theorem kick_worker (s : Task) (alive : Bool) (pc : KickPc) :
    (s.kick alive pc).1.worker = s.worker := by
  cases pc with
  | load => rfl
  | flag => rfl
  | push =>
      unfold Task.kick
      dsimp only
      split <;> rfl

theorem Framed.shake {pc : KickPc} {alive : Bool} (h : Framed s) (hw : s.worker = .shake pc) :
    Framed (match s.kick alive pc with
      | (s', some pc') => { s' with worker := .shake pc' }
      | (s', none) => { s'.setMode 0 .queued with worker := .loop }) := by
  have hearly : (s.kick alive pc).1.worker.early = true := by
    rw [kick_worker, hw]
    rfl
  have hkick := h.kick alive pc
  split
  · rename_i s₁ pc' heq
    rw [heq] at hkick hearly
    exact hkick.spawning hearly _ rfl
  · rename_i s₁ heq
    rw [heq] at hkick hearly
    exact hkick.spawned hearly

theorem Framed.resume (h : Framed s) (hw : s.worker = .loop) (hf : s.mode f = .queued) :
    Framed { (s.setHook f false).setMode f .running with worker := .running f .code [] } := by
  have honly := h.onlyParked (by simp [hw])
  have hmode : (s.setHook f false).mode f = .queued := hf
  have hshape : Shape ((s.setHook f false).setMode f .running) :=
    (h.shape.setHook (.inl (by rw [hf]; simp))).switch (by rw [hmode]; rfl)
      (by rw [hmode]; simp) (by simp) (by simp)
  refine hshape.run (Function.update_self ..) ⟨List.nodup_nil, by simp⟩ (fun x hx => .inl ?_)
    (by simp)
  exact honly.setMode (f := f) (m := .running) (by rw [hf]; simp) x hx

theorem Framed.arm (h : Framed s) (hw : s.worker = .running f .arm below) :
    Framed (if s.requested then { s.setHook f true with worker := .running f .detach below }
      else (s.setHook f true).suspend f below) := by
  obtain ⟨hf, hbelow⟩ := h.driven.active f _ below hw
  split
  · refine h.at_point hw (s.attached f) true ?_ (fun _ => .inr rfl) (by simp)
    rw [setAttached_self]
  · have hshape : Shape (s.setHook f true) := h.shape.setHook (.inr rfl)
    exact hshape.suspend hf ⟨hbelow.nodup, hbelow.calling⟩ (h.others hw) fun _ =>
      Function.update_self ..

theorem Framed.sockArm (h : Framed s) (hw : s.worker = .running f .sockArm below) :
    Framed (if s.requested then ((s.setHook f false).setMode f .queued).leave below
      else { s.setHook f true with worker := .running f .sockPark below }) := by
  have hcode := h.inCode hw (by simp)
  have hf := hcode.running
  split
  · have hmode : (s.setHook f false).mode f = .running := hf
    have hshape : Shape ((s.setHook f false).setMode f .queued) :=
      (h.shape.setHook (.inl (by rw [hf]; simp))).switch (by rw [hmode]; rfl)
        (by rw [hmode]; simp) (by simp) (by simp)
    refine hshape.leave ⟨hcode.below.nodup, ?_⟩ ?_
    · exact (hcode.below.setMode (f := f) (m := .queued) (by rw [hf]; simp)).calling
    · exact fun x hx => hcode.only.setMode (f := f) (m := .queued) (by rw [hf]; simp) x hx
  · have hnot : s.attached f = false := by
      by_contra ha
      exact absurd (hf.symm.trans (hcode.only f (by simpa using ha))) (by simp)
    refine h.at_point hw (s.attached f) true ?_ (by simp [hnot]) fun _ => rfl
    rw [setAttached_self]

theorem Framed.sockPark (h : Framed s) (hw : s.worker = .running f .sockPark below)
    (parked : Bool) : Framed ((s.setAttached f parked).suspend f below) := by
  obtain ⟨hf, hbelow⟩ := h.driven.active f _ below hw
  have hothers := h.others hw
  have hshape : Shape (s.setAttached f parked) := h.shape.setAttached (by rw [hf]; simp)
  refine hshape.suspend hf ⟨hbelow.nodup, hbelow.calling⟩ (fun x hxf hx => ?_) fun _ =>
    h.driven.socket f below hw
  exact hothers x hxf ((Function.update_of_ne hxf ..).symm.trans hx)

theorem Framed.step {s' : Task} (h : Framed s) (hstep : WorkerStep s s') : Framed s' := by
  cases hstep with
  | dequeue hw => exact h.spawning (by rw [hw]; rfl) _ rfl
  | stamp tid hw =>
      have hearly := h.spawning (by rw [hw]; rfl) .probe rfl
      exact ⟨⟨hearly.shape.linked, hearly.shape.rooted, hearly.shape.rootCode,
        hearly.shape.rootMade, hearly.shape.bound, hearly.shape.armed⟩, by simp,
        hearly.driven.early, hearly.driven.held, by simp⟩
  | probe hw =>
      split
      · exact h.spawning (by rw [hw]; rfl) _ rfl
      · exact h.spawned (by rw [hw]; rfl)
  | shake pc alive hw hdone => exact h.shake hw
  | pop hw hk =>
      have hrest := h.shape.rest (h.onlyParked (by simp [hw])) .clear (by simp) rfl
      exact ⟨⟨hrest.shape.linked, hrest.shape.rooted, hrest.shape.rootCode, hrest.shape.rootMade,
        hrest.shape.bound, hrest.shape.armed⟩, by simp, hrest.driven.early, hrest.driven.held,
        by simp⟩
  | clear hw =>
      have hrest := h.shape.rest (h.onlyParked (by simp [hw])) .hook (by simp) rfl
      exact ⟨⟨hrest.shape.linked, hrest.shape.rooted, hrest.shape.rootCode, hrest.shape.rootMade,
        hrest.shape.bound, hrest.shape.armed⟩, by simp, hrest.driven.early, hrest.driven.held,
        by simp⟩
  | hook hw => exact h.processKick hw
  | resume f hw hf => exact h.resume hw hf
  | call f below deep hw => exact h.call (h.inCode hw (by simp))
  | finish f below deep hw => exact h.finish (h.inCode hw (by simp))
  | coYield f p below deep hw hp => exact h.coYield (h.inCode hw (by simp)) hp
  | again f g below deep hw hg => exact h.again (h.inCode hw (by simp)) hg
  | startDeferred f below hw => exact h.startDeferred (h.inCode hw (by simp))
  | awaitDeferred f g below hw hg hroot hprev =>
      exact h.awaitDeferred (h.inCode hw (by simp)) hg hroot
  | yield f below hw => exact h.let_go (h.inCode hw (by simp)) (by simp) (by simp)
  | block f below hw => exact h.let_go (h.inCode hw (by simp)) (by simp) (by simp)
  | wait f below point hw hpoint =>
      have hcode := h.inCode hw (by simp)
      refine h.shape.run hcode.running hcode.below (fun x hx => .inl (hcode.only x hx)) ?_
      rintro rfl
      simp at hpoint
  | check f below hw =>
      have hcode := h.inCode hw (by simp)
      refine h.shape.run hcode.running hcode.below (fun x hx => .inl (hcode.only x hx)) ?_
      intro hpoint
      split at hpoint <;> simp at hpoint
  | attach f below hw =>
      exact h.at_point hw true _ (setHook_self _ f).symm (fun _ => .inl rfl) (by simp)
  | ready f below hw =>
      split
      · exact h.at_point hw false _ (setHook_self _ f).symm (by simp) (by simp)
      · rename_i ha
        obtain ⟨hf, hbelow⟩ := h.driven.active f _ below hw
        exact h.shape.suspend hf hbelow (h.others hw) fun habs => absurd habs ha
  | arm f below hw => exact h.arm hw
  | detach f below hw =>
      obtain ⟨hf, hbelow⟩ := h.driven.active f _ below hw
      split
      · exact h.at_point hw false false rfl (by simp) (by simp)
      · rename_i ha
        exact h.shape.suspend hf hbelow (h.others hw) fun habs => absurd habs ha
  | sockArm f below hw => exact h.sockArm hw
  | sockPark f below parked hw => exact h.sockPark hw parked

end Steps

end Uvent.Tasks
