import Uvent.Net.WaiterBooks

/-!
# No edge is lost

Between its failing probe and its park the coroutine of a direction is owed the edge of
everything that arrives: the edge is on its way, or the hint in the word stands for it.  In
the shared build the poller drops an event of a socket that is busy or disconnected.
-/

namespace Uvent.Net.Waiter

open Side Socket

def Pc.Parking : Pc → Prop
  | .clearBusy | .armCancel | .load | .swap _ => True
  | _ => False

def Side.Owed (x : Side) : Prop := 0 < x.fresh ∧ (x.pc.Parking ∨ ∃ h, x.word = .parked h)

def Poller.Fires : Poller → Direction → Prop
  | .check read write, d | .mark read write, d | .fire read write, d => bit read write d = true
  | .resume .read write, d => bit false write d = true
  | _, _ => False

def Callback.Took : Callback → Direction → Prop
  | .takeWrite, d => d = .read
  | .clearBusy, _ | .removeEvent, _ | .flag, _ | .resumeRead, _ | .resumeWrite, _
  | .finished, _ => True
  | _, _ => False

namespace Socket

def Coming (s : Socket) (d : Direction) : Prop := 0 < (s.side d).edges ∨ s.poller.Fires d

def Drops (s s' : Socket) (read write : Bool) : Prop :=
  s.poller = .check read write ∧ s'.poller = .idle

/-- Nobody misses an event that the step drops: its directions have another edge on the way, or a
hint, or no coroutine that had its failing probe before the arrival. -/
def Harmless (s s' : Socket) : Prop :=
  ∀ read write, s.Drops s' read write → ∀ d, bit read write d = true → (s.side d).Owed →
    0 < (s.side d).edges ∨ (s.side d).word = .ready

structure Heard (s : Socket) (d : Direction) : Prop where
  le : (s.side d).fresh ≤ (s.side d).avail
  owed : ¬ s.callback.Took d → (s.side d).Owed → s.Coming d ∨ (s.side d).word = .ready

end Socket

inductive CarefulRuns (build : Build) : Socket → Prop where
  | start : CarefulRuns build .new
  | step {s s' : Socket} (hs : CarefulRuns build s) (h : Step build s s')
      (harmless : s.Harmless s') : CarefulRuns build s'

theorem CarefulRuns.runs {build : Build} {s : Socket} (h : CarefulRuns build s) :
    Runs build s := by
  induction h with
  | start => exact .start
  | step _ hstep _ ih => exact ih.step hstep

section

variable {build : Build} {s s' : Socket} {d : Direction}

theorem Socket.Heard.of_same (h : s.Heard d) (hside : s'.side d = s.side d)
    (hpoller : s.poller.Fires d → s'.poller.Fires d)
    (hcallback : s.callback.Took d → s'.callback.Took d) : s'.Heard d := by
  refine ⟨by rw [hside]; exact h.le, fun htook howed => ?_⟩
  rw [hside] at howed
  obtain (hedge | hfires) | hready := h.owed (mt hcallback htook) howed
  · exact .inl (.inl (by rw [hside]; exact hedge))
  · exact .inl (.inr (hpoller hfires))
  · exact .inr (by rw [hside]; exact hready)

theorem Socket.put_side (s : Socket) (d : Direction) (x : Side) : (s.put d x).side d = x :=
  Function.update_self ..

theorem Socket.put_other {d' : Direction} (hd : d' ≠ d) (x : Side) :
    (s.put d x).side d' = s.side d' :=
  Function.update_of_ne hd ..

theorem Side.not_owed {x : Side} (hpc : ¬ x.pc.Parking) (hword : x.Unparked) : ¬ x.Owed :=
  fun howed => howed.2.elim hpc fun hparked => hword _ hparked.choose_spec

theorem Side.not_owed_of_fresh {x : Side} (hfresh : x.fresh = 0) : ¬ x.Owed := by
  intro howed
  have := howed.1
  omega

/-- The coroutine is owed an edge only on its way from the failing probe to its sleep. -/
theorem Side.owed_reader {closed : Bool} {x x' : Side} (hx : x.Sound) (hle : x.fresh ≤ x.avail)
    (hstep : ReaderStep build closed d x x') :
    x'.fresh ≤ x'.avail ∧ x'.edges = x.edges ∧
      (x'.Owed → x.Owed ∧ (x.word = .ready → x'.word = .ready)) := by
  have hquiet : x.pc ≠ .asleep → x.Unparked := fun hpc => (hx.place.quiet hpc).unparked
  cases hstep with
  | call g hpc =>
      refine ⟨hle, rfl, fun howed => absurd howed (not_owed (fun h => h) ?_)⟩
      exact hquiet (by simp [hpc])
  | connect g | exhausted => exact ⟨Nat.zero_le _, rfl, fun h => absurd h (not_owed_of_fresh rfl)⟩
  | isArmed hpc =>
      refine ⟨hle, rfl, fun howed => absurd howed (not_owed ?_ (hquiet (by simp [hpc])))⟩
      change ¬ (if x.word = .ready then Pc.disarm else .probe).Parking
      split <;> exact fun h => h
  | disarm hpc =>
      refine ⟨hle, rfl, fun howed => absurd howed (not_owed (fun h => h) fun g hg => ?_)⟩
      change (if x.word = .ready then Word.idle else x.word) = _ at hg
      split at hg
      · cases hg
      · exact hquiet (by simp [hpc]) g hg
  | got k pc => exact ⟨Nat.zero_le _, rfl, fun h => absurd h (not_owed_of_fresh rfl)⟩
  | again pc => exact ⟨Nat.zero_le _, rfl, fun h => absurd h (not_owed_of_fresh rfl)⟩
  | interrupted hpc | error hpc =>
      exact ⟨hle, rfl, fun h => absurd h (not_owed (fun h => h) (hquiet (by simp [hpc])))⟩
  | clearBusy hpc =>
      refine ⟨hle, rfl, fun howed => ⟨⟨howed.1, .inl ?_⟩, fun hword => hword⟩⟩
      rw [hpc]
      trivial
  | cancelled hpc | refused hpc =>
      exact ⟨hle, rfl, fun h => absurd h (not_owed (fun h => h) (hquiet (by simp [hpc])))⟩
  | armCancel hpc | load hpc | retry _ hpc =>
      refine ⟨hle, rfl, fun howed => ⟨⟨howed.1, .inl ?_⟩, fun hword => hword⟩⟩
      rw [hpc]
      trivial
  | consume hpc =>
      exact ⟨hle, rfl, fun h => absurd h (not_owed (fun h => h) fun _ hg => Word.noConfusion hg)⟩
  | publish hpc hword =>
      refine ⟨hle, rfl, fun howed => ⟨⟨howed.1, .inl ?_⟩, fun hready => ?_⟩⟩
      · rw [hpc]
        trivial
      · rw [hword] at hready
        cases hready
  | taken g hpc =>
      exact ⟨hle, rfl, fun h => absurd h (not_owed (fun h => h) (hquiet (by simp [hpc])))⟩
  | wake hpc hqueued =>
      refine ⟨hle, rfl, fun h => absurd h (not_owed (fun h => h) fun g hg => ?_)⟩
      obtain ⟨-, -, -, hnone, -⟩ := hx.place.of_parked hg
      omega
  | resumed pc hpc hnext =>
      refine ⟨hle, rfl, fun h => absurd h (not_owed ?_ (hquiet (by simp [hpc])))⟩
      obtain rfl | rfl := hnext <;> exact fun h => h

/-- An exchange that leaves a hint, or finds no hint. -/
theorem Side.owed_exchange {x : Side} (who : Hand) {v : Word} (hv : ∀ g, v ≠ .parked g) :
    (x.exchange who v).fresh = x.fresh ∧ (x.exchange who v).avail = x.avail ∧
      (x.exchange who v).edges = x.edges ∧ (x.exchange who v).word = v ∧
      ((x.exchange who v).Owed → x.Owed) := by
  by_cases hparked : ∃ g, x.word = .parked g
  · obtain ⟨g, hword⟩ := hparked
    rw [exchange_of_parked hword]
    exact ⟨rfl, rfl, rfl, rfl, fun howed => ⟨howed.1, .inr ⟨g, hword⟩⟩⟩
  · rw [exchange_of_unparked fun g hword => hparked ⟨g, hword⟩]
    refine ⟨rfl, rfl, rfl, rfl, fun howed => ⟨howed.1, ?_⟩⟩
    exact howed.2.imp_right fun ⟨g, hg⟩ => absurd hg (hv g)

theorem Side.resumeWaiter_same (x : Side) (who : Hand) :
    (x.resumeWaiter who).fresh = x.fresh ∧ (x.resumeWaiter who).avail = x.avail ∧
      (x.resumeWaiter who).edges = x.edges ∧ (x.resumeWaiter who).word = x.word ∧
      (x.resumeWaiter who).pc = x.pc := by
  unfold Side.resumeWaiter
  cases x.hand who <;> exact ⟨rfl, rfl, rfl, rfl, rfl⟩

theorem Socket.Heard.put (h : ∀ d, s.Heard d) {x : Side} (hle : x.fresh ≤ x.avail)
    (hedges : x.edges = (s.side d).edges)
    (howed : x.Owed → (s.side d).Owed ∧ ((s.side d).word = .ready → x.word = .ready))
    (hside : s'.side = Function.update s.side d x)
    (hpoller : ∀ d, s.poller.Fires d → s'.poller.Fires d)
    (hcallback : ∀ d, s.callback.Took d → s'.callback.Took d) : ∀ d, s'.Heard d := by
  intro d'
  by_cases hd : d' = d
  · subst hd
    have hself : s'.side d' = x := by rw [hside, Function.update_self]
    refine ⟨by rw [hself]; exact hle, fun htook hx => ?_⟩
    rw [hself] at hx
    obtain ⟨hold, hword⟩ := howed hx
    obtain (hedge | hfires) | hready := (h d').owed (mt (hcallback d') htook) hold
    · exact .inl (.inl (by rw [hself, hedges]; exact hedge))
    · exact .inl (.inr (hpoller d' hfires))
    · exact .inr (by rw [hself]; exact hword hready)
  · exact (h d').of_same (by rw [hside, Function.update_of_ne hd]) (hpoller d') (hcallback d')

theorem Socket.Heard.resume (h : ∀ d, s.Heard d) (who : Hand)
    (hside : s'.side = Function.update s.side d ((s.side d).resumeWaiter who))
    (hpoller : ∀ d, s.poller.Fires d → s'.poller.Fires d)
    (hcallback : ∀ d, s.callback.Took d → s'.callback.Took d) : ∀ d, s'.Heard d := by
  obtain ⟨hfresh, havail, hedges, hword, hpc⟩ := (s.side d).resumeWaiter_same who
  refine .put h (by rw [hfresh, havail]; exact (h d).le) hedges (fun howed => ?_) hside hpoller
    hcallback
  rw [Owed, hfresh, hword, hpc] at howed
  exact ⟨howed, fun hready => hword.trans hready⟩

theorem Socket.Heard.fire (h : ∀ d, s.Heard d)
    (hside : s'.side = Function.update s.side d (s.side d).fire)
    (hpoller : ∀ d', d' ≠ d → s.poller.Fires d' → s'.poller.Fires d')
    (hcallback : s'.callback = s.callback) : ∀ d, s'.Heard d := by
  intro d'
  by_cases hd : d' = d
  · subst hd
    have hself : s'.side d' = (s.side d').fire := by rw [hside, Function.update_self]
    obtain ⟨hfresh, havail, -, hword, -⟩ :=
      owed_exchange (x := s.side d') .poller (v := .ready) (by simp)
    refine ⟨?_, fun _ _ => .inr (by rw [hself]; exact hword)⟩
    rw [hself, fire, hfresh, havail]
    exact (h d').le
  · refine (h d').of_same (by rw [hside, Function.update_of_ne hd]) (hpoller d' hd) ?_
    rw [hcallback]
    exact fun htook => htook

theorem Socket.Heard.take (h : ∀ d, s.Heard d)
    (hside : s'.side = Function.update s.side d (s.side d).take)
    (hpoller : s'.poller = s.poller) (htook : s'.callback.Took d)
    (hcallback : ∀ d, s.callback.Took d → s'.callback.Took d) : ∀ d, s'.Heard d := by
  intro d'
  by_cases hd : d' = d
  · subst hd
    have hself : s'.side d' = (s.side d').take := by rw [hside, Function.update_self]
    obtain ⟨hfresh, havail, -⟩ :=
      owed_exchange (x := s.side d') .callback (v := .idle) (by simp)
    refine ⟨?_, fun hnot => absurd htook hnot⟩
    rw [hself, Side.take, hfresh, havail]
    exact (h d').le
  · refine (h d').of_same (by rw [hside, Function.update_of_ne hd]) ?_ (hcallback d')
    rw [hpoller]
    exact fun hfires => hfires

theorem Socket.Heard.poll (h : ∀ d, s.Heard d) (harmless : s.Harmless s')
    (hstep : PollerStep build s s') : ∀ d, s'.Heard d := by
  cases hstep with
  | wait read write left hpc hopen hleft hall =>
      intro d
      refine ⟨(h d).le, fun htook howed => ?_⟩
      cases hbit : bit read write d with
      | true =>
          refine .inl (.inr ?_)
          cases build <;> exact hbit
      | false =>
          have hfresh : 0 < (s.side d).fresh := howed.1
          have hle := (h d).le
          obtain hleft | hempty := hall d hbit
          · obtain (hedge | hfires) | hready := (h d).owed htook howed
            · exact .inl (.inl (by rw [← hleft] at hedge; exact hedge))
            · rw [hpc] at hfires
              exact hfires.elim
            · exact .inr hready
          · omega
  | skip read write hpc hflag =>
      intro d
      refine ⟨(h d).le, fun htook howed => ?_⟩
      obtain (hedge | hfires) | hready := (h d).owed htook howed
      · exact .inl (.inl hedge)
      · rw [hpc] at hfires
        exact (harmless read write ⟨hpc, rfl⟩ d hfires howed).imp_left .inl
      · exact .inr hready
  | check read write hpc hbusy hdisconnected =>
      refine fun d => (h d).of_same rfl ?_ fun htook => htook
      rw [hpc]
      exact fun hfires => hfires
  | mark read write won hpc =>
      refine fun d => (h d).of_same rfl ?_ fun htook => htook
      rw [hpc]
      exact fun hfires => hfires
  | fireRead write hpc =>
      refine .fire h rfl (fun d hd => ?_) rfl
      rw [hpc]
      cases d with
      | read => exact absurd rfl hd
      | write => exact fun hfires => hfires
  | fireWrite hpc =>
      refine .fire h rfl (fun d hd => ?_) rfl
      rw [hpc]
      cases d with
      | read => exact fun hfires => absurd hfires (by simp [Poller.Fires, bit])
      | write => exact absurd rfl hd
  | resume d write hpc =>
      refine .resume h .poller rfl (fun d' => ?_) fun _ htook => htook
      rw [hpc]
      cases d with
      | read => exact fun hfires => hfires
      | write => exact fun hfires => False.elim hfires
  | finish hpc =>
      refine fun d => (h d).of_same rfl ?_ fun htook => htook
      rw [hpc]
      cases d <;> exact fun hfires => absurd hfires (by simp [Poller.Fires, bit])

theorem Socket.Heard.callback (h : ∀ d, s.Heard d) (hstep : CallbackStep build s s') :
    ∀ d, s'.Heard d := by
  -- behind a step without a word the callback has taken what it had taken before
  have hgo : ∀ c : Callback, (∀ d, s.callback.Took d → c.Took d) → s'.side = s.side →
      s'.poller = s.poller → s'.callback = c → ∀ d, s'.Heard d := by
    intro c htook hside hpoller hcallback d
    refine (h d).of_same (by rw [hside]) ?_ ?_
    · rw [hpoller]
      exact fun hfires => hfires
    · rw [hcallback]
      exact htook d
  cases hstep with
  | start hpc | claim _ hpc | markBusy hpc | markFails hpc | epoch _ hpc | unmark hpc
  | disconnect hpc =>
      refine hgo _ (fun d htook => ?_) rfl rfl rfl
      rw [hpc] at htook
      exact False.elim htook
  | clearBusy => exact hgo .removeEvent (fun _ _ => trivial) rfl rfl rfl
  | removeEvent => exact hgo .flag (fun _ _ => trivial) rfl rfl rfl
  | flag => exact hgo .resumeRead (fun _ _ => trivial) rfl rfl rfl
  | takeRead hpc =>
      refine .take h rfl rfl rfl fun d htook => ?_
      rw [hpc] at htook
      exact False.elim htook
  | takeWrite hpc =>
      refine .take h rfl rfl ?_ fun d htook => ?_
      · cases build <;> trivial
      · cases build <;> trivial
  | resumeRead | resumeWrite =>
      exact .resume h .callback rfl (fun _ hfires => hfires) fun _ _ => trivial
  | abandonRead =>
      exact .put h (x := (s.side .read).abandon .callback) (h .read).le rfl
        (fun howed => ⟨howed, fun hready => hready⟩) rfl (fun _ hfires => hfires)
        fun _ _ => trivial
  | abandonWrite =>
      exact .put h (x := (s.side .write).abandon .callback) (h .write).le rfl
        (fun howed => ⟨howed, fun hready => hready⟩) rfl (fun _ hfires => hfires)
        fun _ _ => trivial

theorem Socket.Heard.step (hsound : s.Sound) (h : ∀ d, s.Heard d) (harmless : s.Harmless s')
    (hstep : Step build s s') : ∀ d, s'.Heard d := by
  cases hstep with
  | reader d x hreader =>
      obtain ⟨hle, hedges, howed⟩ := owed_reader (hsound d) (h d).le hreader
      exact .put h hle hedges howed rfl (fun _ hfires => hfires) fun _ htook => htook
  | arrive d hopen =>
      intro d'
      by_cases hd : d' = d
      · subst hd
        have hself := put_side s d' (s.side d').arrive
        refine ⟨?_, fun _ _ => .inl (.inl ?_)⟩
        · rw [hself]
          exact Nat.succ_le_succ (h d').le
        · rw [hself]
          exact Nat.succ_pos _
      · exact (h d').of_same (put_other hd _) (fun hfires => hfires) fun htook => htook
  | unpark d t g =>
      unfold Side.unpark
      by_cases hword : (s.side d).word = .parked g
      · rw [if_pos hword]
        obtain ⟨hfresh, havail, hedges, hword', hback⟩ :=
          owed_exchange (x := s.side d) (.hook t) (v := .idle) (by simp)
        refine .put h (by rw [hfresh, havail]; exact (h d).le) hedges (fun howed => ?_) rfl
          (fun _ hfires => hfires) fun _ htook => htook
        refine ⟨hback howed, fun hready => ?_⟩
        rw [hword] at hready
        cases hready
      · rw [if_neg hword]
        exact .put h (h d).le rfl (fun howed => ⟨howed, fun hready => hready⟩) rfl
          (fun _ hfires => hfires) fun _ htook => htook
  | hookResume d t =>
      exact .resume h (.hook t) rfl (fun _ hfires => hfires) fun _ htook => htook
  | poller s' hpoll => exact .poll h harmless hpoll
  | callback s' hcall => exact .callback h hcall

end

theorem heard_of_carefulRuns {build : Build} {s : Socket} (h : CarefulRuns build s) :
    ∀ d, s.Heard d := by
  induction h with
  | start =>
      refine fun d => ⟨Nat.le_refl 0, fun _ howed => ?_⟩
      have : 0 < 0 := howed.1
      omega
  | step hs hstep harmless ih => exact .step (socketSound_of_runs hs.runs) ih harmless hstep

/-! ## The promise of the words -/

theorem unchecked_of_runs {s : Socket} (h : Runs .reuseaddr s) (read write : Bool) :
    s.poller ≠ .check read write := by
  induction h with
  | start => exact fun hcheck => Poller.noConfusion hcheck
  | @step s s' _ hstep ih =>
      cases hstep with
      | reader | arrive | unpark | hookResume => exact ih
      | poller _ hpoll => cases hpoll <;> exact fun hcheck => Poller.noConfusion hcheck
      | callback _ hcall => cases hcall <;> exact ih

/-- In the build with owner forwarding the poller drops nothing. -/
theorem Runs.careful {s : Socket} (h : Runs .reuseaddr s) : CarefulRuns .reuseaddr s := by
  induction h with
  | start => exact .start
  | step hs hstep ih =>
      exact ih.step hstep fun read write hdrops =>
        absurd hdrops.1 (unchecked_of_runs hs read write)

namespace Socket

/-- A parked coroutine for which something arrived after its failing probe will get the
edge. -/
def Wakes (s : Socket) : Prop :=
  ∀ d h, ¬ s.callback.Took d → (s.side d).word = .parked h → 0 < (s.side d).fresh → s.Coming d

/-- Every published handle is handed out once at most, a coroutine is enqueued once at most in
a turn, and if its park was refused exactly once. -/
structure ResumesOnce (s : Socket) : Prop where
  enqueued : ∀ d n, (s.side d).enqueued.count n ≤ 1
  handed : ∀ d n, (s.side d).handed.count n ≤ 1 ∧
    (n ∈ (s.side d).handed → n ∈ (s.side d).published)
  refused : ∀ d n, n ∈ (s.side d).refusals →
    (s.side d).enqueued.count n = if n = (s.side d).turn ∧ (s.side d).pc = .refused then 0 else 1

end Socket

theorem resumesOnce_of_sound {s : Socket} (h : s.Sound) : s.ResumesOnce := by
  refine ⟨fun d => List.nodup_iff_count_le_one.mp (h d).books.enqueuedOnce,
    fun d n => ⟨List.nodup_iff_count_le_one.mp (h d).books.handedOnce n,
    (h d).books.handedPublished n⟩, fun d n hn => ?_⟩
  have hb := (h d).books
  by_cases hat : n = (s.side d).turn ∧ (s.side d).pc = .refused
  · rw [if_pos hat, hat.1, List.count_eq_zero]
    cases (h d).place with
    | refused _ _ _ unqueued => exact unqueued
    | awake hx | entering hx => rw [hat.2] at hx; exact hx.elim
    | parked hx | held _ hx | queued hx | dropped hx => simp [hat.2] at hx
  · rw [if_neg hat]
    exact List.count_eq_one_of_mem hb.enqueuedOnce ((hb.refusedQueued n hn).resolve_right hat)

/-- The words resume every coroutine once, in every run; and they lose no edge in a run of the
shared build in which the poller drops harmless events only, and in every run of the other. -/
theorem words_keep {build : Build} {s : Socket} (h : Runs build s) :
    s.ResumesOnce ∧ (build = .reuseaddr ∨ CarefulRuns build s → s.Wakes) := by
  refine ⟨resumesOnce_of_sound (socketSound_of_runs h), fun hcareful d g htook hword hfresh => ?_⟩
  have hruns : CarefulRuns build s := by
    obtain rfl | hcareful := hcareful
    · exact h.careful
    · exact hcareful
  obtain hcoming | hready := (heard_of_carefulRuns hruns d).owed htook ⟨hfresh, .inr ⟨g, hword⟩⟩
  · exact hcoming
  · rw [hword] at hready
    cases hready

/-- A coroutine parks behind its failing probe, and then something arrives. -/
theorem parked_coming :
    ∃ s, Runs .reuseaddr s ∧ (s.side .read).word = .parked 7 ∧ 0 < (s.side .read).fresh ∧
      s.ResumesOnce ∧ s.Coming .read := by
  have hstart : Runs .reuseaddr .new := .start
  have hcall := hstart.step (.reader .read _ (.call 7 rfl))
  have harmed := hcall.step (.reader .read _ (.isArmed rfl))
  have hprobed := harmed.step (.reader .read _ (.again .clearBusy rfl rfl rfl (.inl rfl)))
  have hentered := hprobed.step (.reader .read _ (.clearBusy rfl))
  have hchecked := hentered.step (.reader .read _ (.armCancel rfl))
  have hloaded := hchecked.step (.reader .read _ (.load rfl))
  have hparked := hloaded.step (.reader .read _ (.publish rfl rfl))
  have hruns := hparked.step (.arrive .read rfl)
  have hkeeps := words_keep hruns
  exact ⟨_, hruns, rfl, Nat.one_pos, hkeeps.1,
    hkeeps.2 (.inl rfl) .read 7 (fun htook => htook) rfl Nat.one_pos⟩

/-- In the shared build an edge that comes between the failing probe and `clear_busy` is
dropped, since the edge before it left the socket busy. -/
theorem busy_not_wakes :
    ¬ ∀ build s, Runs build s → s.ResumesOnce ∧ s.Wakes := by
  intro hall
  have hleft : ∀ d, bit true false d = false → d = .write := by
    intro d hbit
    cases d with
    | read => cases hbit
    | write => rfl
  -- the first edge finds nobody and leaves the hint and the flag
  have h₀ : Runs .shared .new := .start
  have h₁ := h₀.step (.arrive .read rfl)
  have h₂ := h₁.step (.poller _ (.wait true false (fun _ => 0) rfl rfl (fun _ => Nat.zero_le _)
    fun d hbit => by rw [hleft d hbit]; exact .inl rfl))
  have h₃ := h₂.step (.poller _ (.check true false rfl rfl rfl))
  have h₄ := h₃.step (.poller _ (.mark true false true rfl))
  have h₅ := h₄.step (.poller _ (.fireRead false rfl))
  have h₆ := h₅.step (.poller _ (.resume .read false rfl))
  have h₇ := h₆.step (.poller _ (.finish rfl))
  -- the coroutine takes what there is and probes again
  have h₈ := h₇.step (.reader .read _ (.call 7 rfl))
  have h₉ := h₈.step (.reader .read _ (.isArmed rfl))
  have h₁₀ := h₉.step (.reader .read _ (.disarm rfl))
  have h₁₁ := h₁₀.step (.reader .read _ (.got 1 .armed rfl rfl (by decide) (by decide) (.inl rfl)))
  have h₁₂ := h₁₁.step (.reader .read _ (.isArmed rfl))
  have h₁₃ := h₁₂.step (.reader .read _ (.again .clearBusy rfl rfl rfl (.inl rfl)))
  -- the second edge is dropped
  have h₁₄ := h₁₃.step (.arrive .read rfl)
  have h₁₅ := h₁₄.step (.poller _ (.wait true false (fun _ => 0) rfl rfl (fun _ => Nat.zero_le _)
    fun d hbit => by rw [hleft d hbit]; exact .inl rfl))
  have h₁₆ := h₁₅.step (.poller _ (.skip true false rfl (.inl rfl)))
  have h₁₇ := h₁₆.step (.reader .read _ (.clearBusy rfl))
  have h₁₈ := h₁₇.step (.reader .read _ (.load rfl))
  have h₁₉ := h₁₈.step (.reader .read _ (.publish rfl rfl))
  obtain hedge | hfires := (hall _ _ h₁₉).2 .read 7 (fun htook => htook) rfl Nat.one_pos
  · exact absurd hedge (Nat.lt_irrefl 0)
  · exact hfires

end Uvent.Net.Waiter
