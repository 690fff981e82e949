import Uvent.Net.LostEdge

/-!
# A coroutine that parks behind the timeout

`processSocketTimeout` empties both words and then closes the fd.  Nothing in the word tells a
coroutine that had its failing probe before, so one that parks later sleeps for good: no event
comes for a closed fd, and the callback does not look again.
-/

namespace Uvent.Net.Waiter

open Side Socket

/-- The runs in which the callback empties a word only while the coroutine of the direction
is not on its way from a failing probe to its park, and no probe fails between that and the
close of the fd. -/
inductive TimelyRuns : Socket → Prop where
  | start : TimelyRuns .new
  | step {s s' : Socket} (hs : TimelyRuns s) (h : Step .reuseaddr s s')
      (early : ∀ d, ¬ s.callback.Took d → s'.callback.Took d → ¬ (s.side d).pc.Parking)
      (late : ∀ d, s.callback.Took d → s.closed = false → (s'.side d).pc = .clearBusy →
        (s.side d).pc = .clearBusy) : TimelyRuns s'

def Side.Clear (x : Side) : Prop := ¬ x.pc.Parking ∧ x.Unparked

section

variable {s s' : Socket} {d : Direction} {x x' : Side}

/-- The way to the park begins with a probe of an open fd. -/
theorem ReaderStep.entry {build : Build} {closed : Bool} (hstep : ReaderStep build closed d x x')
    (hpc : ¬ x.pc.Parking) (hpc' : x'.pc.Parking) : x'.pc = .clearBusy ∧ closed = false := by
  cases hstep with
  | connect _ _ _ hopen => exact ⟨rfl, hopen⟩
  | exhausted _ hopen => exact ⟨rfl, hopen⟩
  | again pc _ hopen _ hnext =>
      obtain rfl | rfl := hnext
      · exact ⟨rfl, hopen⟩
      · exact hpc'.elim
  | clearBusy hx | armCancel hx | load hx | retry _ hx =>
      rw [hx] at hpc
      exact absurd trivial hpc
  | isArmed =>
      have hnot : ¬ (if x.word = .ready then Pc.disarm else .probe).Parking := by
        split <;> exact fun h => h
      exact absurd hpc' hnot
  | got k pc _ _ _ _ hnext | resumed pc _ hnext => obtain rfl | rfl := hnext <;> exact hpc'.elim
  | call | disarm | interrupted | error | cancelled | consume | publish | taken | refused | wake =>
      exact hpc'.elim

/-- Only the end of that way puts a handle into the word. -/
theorem ReaderStep.unparked {build : Build} {closed : Bool}
    (hstep : ReaderStep build closed d x x') (hclear : x.Clear) : x'.Unparked := by
  obtain ⟨hpc, hword⟩ := hclear
  cases hstep with
  | publish hx =>
      rw [hx] at hpc
      exact absurd trivial hpc
  | consume => exact fun _ hg => Word.noConfusion hg
  | disarm =>
      intro g hg
      change (if x.word = .ready then Word.idle else x.word) = _ at hg
      split at hg
      · cases hg
      · exact hword g hg
  | call | connect | isArmed | got | again | exhausted | interrupted | error | clearBusy
  | cancelled | armCancel | load | retry | taken | refused | wake | resumed => exact hword

theorem Side.pc_exchange (x : Side) (who : Hand) (v : Word) : (x.exchange who v).pc = x.pc := by
  unfold Side.exchange
  cases x.word <;> rfl

theorem Side.Clear.exchange (hpc : ¬ x.pc.Parking) (who : Hand) {v : Word}
    (hv : ∀ g, v ≠ .parked g) : (x.exchange who v).Clear := by
  refine ⟨by rw [pc_exchange]; exact hpc, ?_⟩
  obtain ⟨-, -, -, hword, -⟩ := owed_exchange (x := x) who hv
  intro g hg
  exact hv g (hword.symm.trans hg)

theorem Side.Clear.resumeWaiter (h : x.Clear) (who : Hand) : (x.resumeWaiter who).Clear := by
  obtain ⟨-, -, -, hword, hpc⟩ := x.resumeWaiter_same who
  exact ⟨by rw [hpc]; exact h.1, fun g hg => h.2 g (hword.symm.trans hg)⟩

def Socket.Emptied (s : Socket) : Prop := ∀ d, s.callback.Took d → (s.side d).Clear

theorem Socket.Emptied.put (h : s.Emptied) (hx : s.callback.Took d → x.Clear)
    (hside : s'.side = Function.update s.side d x)
    (hcallback : ∀ d, s'.callback.Took d → s.callback.Took d) : s'.Emptied := by
  intro d' htook
  rw [hside]
  by_cases hd : d' = d
  · subst hd
    rw [Function.update_self]
    exact hx (hcallback d' htook)
  · rw [Function.update_of_ne hd]
    exact h d' (hcallback d' htook)

theorem Socket.Emptied.take (h : s.Emptied) (hpc : ¬ (s.side d).pc.Parking)
    (hside : s'.side = Function.update s.side d (s.side d).take)
    (hcallback : ∀ d', d' ≠ d → s'.callback.Took d' → s.callback.Took d') : s'.Emptied := by
  intro d' htook
  rw [hside]
  by_cases hd : d' = d
  · subst hd
    rw [Function.update_self]
    exact .exchange hpc .callback (by simp)
  · rw [Function.update_of_ne hd]
    exact h d' (hcallback d' hd htook)

theorem Socket.Emptied.step (h : s.Emptied) (hstep : Step .reuseaddr s s')
    (early : ∀ d, ¬ s.callback.Took d → s'.callback.Took d → ¬ (s.side d).pc.Parking)
    (late : ∀ d, s.callback.Took d → s.closed = false → (s'.side d).pc = .clearBusy →
      (s.side d).pc = .clearBusy) : s'.Emptied := by
  cases hstep with
  | reader d x hreader =>
      refine h.put (fun htook => ?_) rfl fun _ htook => htook
      have hclear := h d htook
      refine ⟨fun hpc => ?_, hreader.unparked hclear⟩
      obtain ⟨hbusy, hopen⟩ := hreader.entry hclear.1 hpc
      refine hclear.1 ?_
      rw [late d htook hopen ((congrArg Side.pc (s.put_side d x)).trans hbusy)]
      trivial
  | arrive d => exact h.put (x := (s.side d).arrive) (fun htook => h d htook) rfl fun _ htook => htook
  | unpark d t g =>
      refine h.put (fun htook => ?_) rfl fun _ htook => htook
      unfold Side.unpark
      split
      · exact .exchange (h d htook).1 _ (by simp)
      · exact h d htook
  | hookResume d t =>
      exact h.put (fun htook => (h d htook).resumeWaiter _) rfl fun _ htook => htook
  | poller s' hpoll =>
      cases hpoll with
      | wait => exact fun d htook => h d htook
      | skip | check | mark | finish => exact h
      | fireRead =>
          exact h.put (fun htook => .exchange (h .read htook).1 _ (by simp)) rfl
            fun _ htook => htook
      | fireWrite =>
          exact h.put (fun htook => .exchange (h .write htook).1 _ (by simp)) rfl
            fun _ htook => htook
      | resume d => exact h.put (fun htook => (h d htook).resumeWaiter _) rfl fun _ htook => htook
  | callback s' hcall =>
      cases hcall with
      | start | markBusy | markFails | unmark => exact fun _ htook => htook.elim
      | claim won => cases won <;> exact fun _ htook => htook.elim
      | epoch changed => cases changed <;> exact fun _ htook => htook.elim
      | disconnect => exact fun _ htook => htook.elim
      | takeRead hpc =>
          refine h.take (early .read (by rw [hpc]; exact fun htook => htook) rfl) rfl ?_
          exact fun d hd htook => absurd htook hd
      | takeWrite hpc =>
          refine h.take (early .write (by rw [hpc]; simp [Callback.Took]) trivial) rfl ?_
          intro d hd _
          rw [hpc]
          cases d with
          | read => rfl
          | write => exact absurd rfl hd
      | clearBusy hpc | removeEvent hpc | flag hpc =>
          exact fun d _ => h d (by rw [hpc]; trivial)
      | resumeRead hpc | resumeWrite hpc =>
          exact h.put (fun htook => (h _ htook).resumeWaiter _) rfl
            fun _ _ => by rw [hpc]; trivial
      | abandonRead _ hbuild | abandonWrite _ hbuild => cases hbuild

end

theorem emptied_of_timelyRuns {s : Socket} (h : TimelyRuns s) : s.Emptied := by
  induction h with
  | start => exact fun _ htook => htook.elim
  | step _ hstep early late ih => exact ih.step hstep early late

structure Socket.Settled (s : Socket) : Prop where
  poller : s.poller = .idle
  coroutine : ∀ d, (s.side d).pc = .away ∨ (s.side d).pc = .asleep
  hands : ∀ d who, (s.side d).hand who = none

/-- A coroutine has its failing probe, the callback runs, and then the coroutine parks. -/
theorem late_stranded :
    ¬ ∀ s, Runs .reuseaddr s → s.callback = .finished → s.Settled → ∀ d, (s.side d).Unparked := by
  intro hall
  have h₀ : Runs .reuseaddr .new := .start
  have h₁ := h₀.step (.reader .read _ (.call 7 rfl))
  have h₂ := h₁.step (.reader .read _ (.isArmed rfl))
  have h₃ := h₂.step (.reader .read _ (.again .clearBusy rfl rfl rfl (.inl rfl)))
  have h₄ := h₃.step (.callback _ (.start rfl))
  have h₅ := h₄.step (.callback _ (.claim true rfl))
  have h₆ := h₅.step (.callback _ (.takeRead rfl))
  have h₇ := h₆.step (.callback _ (.takeWrite rfl))
  have h₈ := h₇.step (.callback _ (.removeEvent rfl))
  have h₉ := h₈.step (.callback _ (.flag rfl))
  have h₁₀ := h₉.step (.callback _ (.resumeRead rfl))
  have h₁₁ := h₁₀.step (.callback _ (.resumeWrite rfl))
  have h₁₂ := h₁₁.step (.reader .read _ (.clearBusy rfl))
  have h₁₃ := h₁₂.step (.reader .read _ (.armCancel rfl))
  have h₁₄ := h₁₃.step (.reader .read _ (.load rfl))
  have h₁₅ := h₁₄.step (.reader .read _ (.publish rfl rfl))
  refine hall _ h₁₅ rfl ⟨rfl, fun d => ?_, fun d who => ?_⟩ .read 7 rfl
  · cases d with
    | read => exact .inr rfl
    | write => exact .inl rfl
  · cases d <;> rfl

/-- In the timely runs the timeout strands no coroutine. -/
theorem unparked_of_timelyRuns {s : Socket} (h : TimelyRuns s) (hfinished : s.callback = .finished)
    (d : Direction) : (s.side d).Unparked :=
  (emptied_of_timelyRuns h d (by rw [hfinished]; trivial)).2

theorem TimelyRuns.before {s s' : Socket} (hs : TimelyRuns s) (h : Step .reuseaddr s s')
    (hbefore : ∀ d, ¬ s.callback.Took d) (hafter : ∀ d, ¬ s'.callback.Took d) : TimelyRuns s' :=
  hs.step h (fun d _ htook => absurd htook (hafter d)) fun d htook => absurd htook (hbefore d)

theorem TimelyRuns.asleep {s s' : Socket} (hs : TimelyRuns s) (h : Step .reuseaddr s s')
    (hpc : ∀ d, (s.side d).pc = .away ∨ (s.side d).pc = .asleep)
    (hsame : ∀ d, (s'.side d).pc = (s.side d).pc) : TimelyRuns s' := by
  refine hs.step h (fun d _ _ hpark => ?_) fun d _ _ hbusy => (hsame d).symm.trans hbusy
  obtain haway | hasleep := hpc d
  · rw [haway] at hpark
    exact hpark
  · rw [hasleep] at hpark
    exact hpark

/-- The callback resumes a coroutine that parked before it. -/
theorem parked_resumed :
    ∃ s, TimelyRuns s ∧ s.callback = .finished ∧ (s.side .read).enqueued = [1] ∧
      (s.side .read).Unparked := by
  have hno : ∀ d, ¬ Callback.waiting.Took d := fun _ htook => htook
  have h₁ := TimelyRuns.start.before (.reader .read _ (.call 7 rfl)) hno hno
  have h₂ := h₁.before (.reader .read _ (.isArmed rfl)) hno hno
  have h₃ := h₂.before (.reader .read _ (.again .clearBusy rfl rfl rfl (.inl rfl))) hno hno
  have h₄ := h₃.before (.reader .read _ (.clearBusy rfl)) hno hno
  have h₅ := h₄.before (.reader .read _ (.armCancel rfl)) hno hno
  have h₆ := h₅.before (.reader .read _ (.load rfl)) hno hno
  have h₇ := h₆.before (.reader .read _ (.publish rfl rfl)) hno hno
  have h₈ := h₇.before (.callback _ (.start rfl)) hno hno
  have h₉ := h₈.before (.callback _ (.claim true rfl)) hno hno
  have hpc : ∀ {s : Socket}, (s.side .read).pc = .asleep → (s.side .write).pc = .away →
      ∀ d, (s.side d).pc = .away ∨ (s.side d).pc = .asleep := by
    intro s hread hwrite d
    cases d with
    | read => exact .inr hread
    | write => exact .inl hwrite
  have h₁₀ := h₉.asleep (.callback _ (.takeRead rfl)) (hpc rfl rfl) (by intro d; cases d <;> rfl)
  have h₁₁ := h₁₀.asleep (.callback _ (.takeWrite rfl)) (hpc rfl rfl) (by intro d; cases d <;> rfl)
  have h₁₂ := h₁₁.asleep (.callback _ (.removeEvent rfl)) (hpc rfl rfl) fun _ => rfl
  have h₁₃ := h₁₂.asleep (.callback _ (.flag rfl)) (hpc rfl rfl) fun _ => rfl
  have h₁₄ := h₁₃.asleep (.callback _ (.resumeRead rfl)) (hpc rfl rfl)
    (by intro d; cases d <;> rfl)
  have h₁₅ := h₁₄.asleep (.callback _ (.resumeWrite rfl)) (hpc rfl rfl)
    (by intro d; cases d <;> rfl)
  exact ⟨_, h₁₅, rfl, rfl, unparked_of_timelyRuns h₁₅ rfl .read⟩

end Uvent.Net.Waiter
