import Uvent.Net.WaiterWord

/-!
# A handle is handed out once

In every turn the coroutine is in at most one place from which it is resumed: its handle is
in the word, or in the hand of whoever took it out, or in a run queue.
-/

namespace Uvent.Net.Waiter

open Side

def Pc.Awake : Pc → Prop
  | .away | .armed | .disarm | .probe | .clearBusy | .resumed => True
  | _ => False

/-- The coroutine is in `suspend_on`, on its way to its turn's end. -/
def Pc.Entering : Pc → Prop
  | .armCancel | .load | .swap .idle | .swap .ready => True
  | _ => False

namespace Side

def Unparked (x : Side) : Prop := ∀ h, x.word ≠ .parked h

structure Quiet (x : Side) : Prop where
  unparked : x.Unparked
  hands : ∀ who, x.hand who = none
  queued : x.queued = 0

inductive Place (x : Side) : Prop where
  | awake (hpc : x.pc.Awake) (quiet : x.Quiet)
  | entering (hpc : x.pc.Entering) (quiet : x.Quiet) (unpublished : x.turn ∉ x.published)
      (unrefused : x.turn ∉ x.refusals) (unqueued : x.turn ∉ x.enqueued)
  | refused (hpc : x.pc = .refused) (quiet : x.Quiet) (here : x.turn ∈ x.refusals)
      (unqueued : x.turn ∉ x.enqueued)
  | parked (hpc : x.pc = .asleep) (word : x.word = .parked x.reader)
      (hands : ∀ who, x.hand who = none) (queued : x.queued = 0) (here : x.turn ∈ x.published)
      (kept : x.turn ∉ x.handed) (unrefused : x.turn ∉ x.refusals)
      (unqueued : x.turn ∉ x.enqueued)
  | held (who : Hand) (hpc : x.pc = .asleep) (unparked : x.Unparked)
      (hand : x.hand who = some x.turn) (others : ∀ who', who' ≠ who → x.hand who' = none)
      (queued : x.queued = 0) (unrefused : x.turn ∉ x.refusals)
      (unqueued : x.turn ∉ x.enqueued)
  | queued (hpc : x.pc = .asleep) (unparked : x.Unparked) (hands : ∀ who, x.hand who = none)
      (queued : x.queued = 1)
  | dropped (hpc : x.pc = .asleep) (quiet : x.Quiet)

structure Books (x : Side) : Prop where
  handedOnce : x.handed.Nodup
  enqueuedOnce : x.enqueued.Nodup
  handedPublished : ∀ n ∈ x.handed, n ∈ x.published
  refusedQueued : ∀ n ∈ x.refusals, n ∈ x.enqueued ∨ (n = x.turn ∧ x.pc = .refused)
  publishedOld : ∀ n ∈ x.published, n ≤ x.turn
  refusedOld : ∀ n ∈ x.refusals, n ≤ x.turn
  enqueuedOld : ∀ n ∈ x.enqueued, n ≤ x.turn

structure Sound (x : Side) : Prop where
  place : x.Place
  books : x.Books

end Side

section

variable {x : Side}

theorem sound_new : Side.new.Sound where
  place := .awake trivial ⟨fun _ h => Word.noConfusion h, fun _ => rfl, rfl⟩
  books := ⟨List.nodup_nil, List.nodup_nil, fun _ h => absurd h List.not_mem_nil,
    fun _ h => absurd h List.not_mem_nil, fun _ h => absurd h List.not_mem_nil,
    fun _ h => absurd h List.not_mem_nil, fun _ h => absurd h List.not_mem_nil⟩

theorem Side.Books.of_same (h : x.Books) {x' : Side} (hturn : x'.turn = x.turn)
    (hpublished : x'.published = x.published) (hrefusals : x'.refusals = x.refusals)
    (hhanded : x'.handed = x.handed) (henqueued : x'.enqueued = x.enqueued)
    (hpc : x.pc = .refused → x'.pc = .refused) : x'.Books where
  handedOnce := by rw [hhanded]; exact h.handedOnce
  enqueuedOnce := by rw [henqueued]; exact h.enqueuedOnce
  handedPublished := by rw [hhanded, hpublished]; exact h.handedPublished
  refusedQueued n hn := by
    rw [hrefusals] at hn
    rw [henqueued, hturn]
    exact (h.refusedQueued n hn).imp_right fun hat => ⟨hat.1, hpc hat.2⟩
  publishedOld := by rw [hpublished, hturn]; exact h.publishedOld
  refusedOld := by rw [hrefusals, hturn]; exact h.refusedOld
  enqueuedOld := by rw [henqueued, hturn]; exact h.enqueuedOld

theorem Side.Books.enqueue (h : x.Books) (hnew : x.turn ∉ x.enqueued) {x' : Side}
    (hturn : x'.turn = x.turn) (hpublished : x'.published = x.published)
    (hrefusals : x'.refusals = x.refusals) (hhanded : x'.handed = x.handed)
    (henqueued : x'.enqueued = x.turn :: x.enqueued) : x'.Books where
  handedOnce := by rw [hhanded]; exact h.handedOnce
  enqueuedOnce := by rw [henqueued]; exact List.nodup_cons.mpr ⟨hnew, h.enqueuedOnce⟩
  handedPublished := by rw [hhanded, hpublished]; exact h.handedPublished
  refusedQueued n hn := by
    rw [hrefusals] at hn
    rw [henqueued, List.mem_cons]
    obtain hin | ⟨hat, -⟩ := h.refusedQueued n hn
    · exact .inl (.inr hin)
    · exact .inl (.inl hat)
  publishedOld := by rw [hpublished, hturn]; exact h.publishedOld
  refusedOld := by rw [hrefusals, hturn]; exact h.refusedOld
  enqueuedOld n hn := by
    rw [henqueued, List.mem_cons] at hn
    rw [hturn]
    obtain rfl | hn := hn
    · exact Nat.le_refl _
    · exact h.enqueuedOld n hn

/-- A parked handle is the coroutine's own, and nobody else will resume it. -/
theorem Side.Place.of_parked (h : x.Place) {g : Nat} (hword : x.word = .parked g) :
    x.pc = .asleep ∧ g = x.reader ∧ (∀ who, x.hand who = none) ∧ x.queued = 0 ∧
      x.turn ∈ x.published ∧ x.turn ∉ x.handed ∧ x.turn ∉ x.refusals ∧ x.turn ∉ x.enqueued := by
  cases h with
  | awake _ quiet | entering _ quiet | refused _ quiet | dropped _ quiet =>
      exact absurd hword (quiet.unparked g)
  | held _ _ unparked | queued _ unparked => exact absurd hword (unparked g)
  | parked hpc word hands queued here kept unrefused unqueued =>
      have hg : g = x.reader := Word.parked.inj (hword.symm.trans word)
      exact ⟨hpc, hg, hands, queued, here, kept, unrefused, unqueued⟩

theorem Side.Place.of_hand (h : x.Place) {who : Hand} {n : Nat} (hhand : x.hand who = some n) :
    x.pc = .asleep ∧ x.Unparked ∧ n = x.turn ∧ (∀ who', who' ≠ who → x.hand who' = none) ∧
      x.queued = 0 ∧ x.turn ∉ x.refusals ∧ x.turn ∉ x.enqueued := by
  cases h with
  | awake _ quiet | entering _ quiet | refused _ quiet | dropped _ quiet =>
      rw [quiet.hands who] at hhand
      cases hhand
  | parked _ _ hands | queued _ _ hands =>
      rw [hands who] at hhand
      cases hhand
  | held holder hpc unparked hand others queued unrefused unqueued =>
      have hwho : who = holder := by
        by_contra hne
        rw [others who hne] at hhand
        cases hhand
      subst hwho
      have hn : n = x.turn := Option.some.inj (hhand.symm.trans hand)
      exact ⟨hpc, unparked, hn, others, queued, unrefused, unqueued⟩

theorem Side.Place.quiet (h : x.Place) (hpc : x.pc ≠ .asleep) : x.Quiet := by
  cases h with
  | awake _ quiet | entering _ quiet | refused _ quiet => exact quiet
  | parked hasleep | held _ hasleep | queued hasleep | dropped hasleep =>
      exact absurd hasleep hpc

theorem Side.Sound.setWord (h : x.Sound) (hold : x.Unparked) {v : Word}
    (hv : ∀ g, v ≠ .parked g) : { x with word := v }.Sound := by
  have hquiet : x.Quiet → { x with word := v }.Quiet :=
    fun quiet => ⟨hv, quiet.hands, quiet.queued⟩
  refine ⟨?_, h.books.of_same rfl rfl rfl rfl rfl fun hpc => hpc⟩
  cases h.place with
  | awake hpc quiet => exact .awake hpc (hquiet quiet)
  | entering hpc quiet unpublished unrefused unqueued =>
      exact .entering hpc (hquiet quiet) unpublished unrefused unqueued
  | refused hpc quiet here unqueued => exact .refused hpc (hquiet quiet) here unqueued
  | parked hpc word => exact absurd word (hold x.reader)
  | held who hpc unparked hand others queued unrefused unqueued =>
      exact .held who hpc hv hand others queued unrefused unqueued
  | queued hpc unparked hands queued => exact .queued hpc hv hands queued
  | dropped hpc quiet => exact .dropped hpc (hquiet quiet)

theorem Side.exchange_of_unparked (hold : x.Unparked) (who : Hand) (v : Word) :
    x.exchange who v = { x with word := v } := by
  unfold Side.exchange
  cases hword : x.word with
  | parked g => exact absurd hword (hold g)
  | idle => rfl
  | ready => rfl

theorem Side.exchange_of_parked {g : Nat} (hword : x.word = .parked g) (who : Hand) (v : Word) :
    x.exchange who v =
      { x with
        word := v, hand := Function.update x.hand who (some x.turn),
        handed := x.turn :: x.handed } := by
  unfold Side.exchange
  rw [hword]

theorem Side.Sound.exchange (h : x.Sound) (who : Hand) {v : Word} (hv : ∀ g, v ≠ .parked g) :
    (x.exchange who v).Sound := by
  by_cases hparked : ∃ g, x.word = .parked g
  · obtain ⟨g, hword⟩ := hparked
    rw [exchange_of_parked hword]
    obtain ⟨hpc, -, hands, queued, here, kept, unrefused, unqueued⟩ := h.place.of_parked hword
    have hb := h.books
    refine ⟨.held who hpc hv (Function.update_self ..) (fun who' hne => ?_) queued unrefused
      unqueued, List.nodup_cons.mpr ⟨kept, hb.handedOnce⟩, hb.enqueuedOnce, fun n hn => ?_,
      hb.refusedQueued, hb.publishedOld, hb.refusedOld, hb.enqueuedOld⟩
    · change Function.update x.hand who _ who' = none
      rw [Function.update_of_ne hne]
      exact hands who'
    · obtain rfl | hn := List.mem_cons.mp hn
      · exact here
      · exact hb.handedPublished n hn
  · have hold : x.Unparked := fun g hword => hparked ⟨g, hword⟩
    rw [exchange_of_unparked hold]
    exact h.setWord hold hv

theorem Side.Sound.unpark (h : x.Sound) (t g : Nat) : (x.unpark t g).Sound := by
  unfold Side.unpark
  split
  · exact h.exchange _ (by simp)
  · exact h

theorem Side.Sound.resumeWaiter (h : x.Sound) (who : Hand) : (x.resumeWaiter who).Sound := by
  unfold Side.resumeWaiter
  cases hhand : x.hand who with
  | none => exact h
  | some n =>
      obtain ⟨hpc, unparked, rfl, others, queued, unrefused, unqueued⟩ := h.place.of_hand hhand
      refine ⟨.queued hpc unparked (fun who' => ?_) ?_,
        h.books.enqueue unqueued rfl rfl rfl rfl rfl⟩
      · change Function.update x.hand who none who' = none
        by_cases hne : who' = who
        · rw [hne, Function.update_self]
        · rw [Function.update_of_ne hne]
          exact others who' hne
      · change x.queued + 1 = 1
        rw [queued]

theorem Side.Sound.abandon (h : x.Sound) (who : Hand) : (x.abandon who).Sound := by
  refine ⟨?_, h.books.of_same rfl rfl rfl rfl rfl fun hpc => hpc⟩
  cases hhand : x.hand who with
  | none =>
      have hsame : x.abandon who = x := by
        unfold Side.abandon
        rw [← hhand, Function.update_eq_self]
      rw [hsame]
      exact h.place
  | some n =>
      obtain ⟨hpc, unparked, -, others, queued, -⟩ := h.place.of_hand hhand
      refine .dropped hpc ⟨unparked, fun who' => ?_, queued⟩
      change Function.update x.hand who none who' = none
      by_cases hne : who' = who
      · rw [hne, Function.update_self]
      · rw [Function.update_of_ne hne]
        exact others who' hne

theorem Side.Sound.awake (h : x.Sound) (quiet : x.Quiet) (hdone : x.pc ≠ .refused)
    {x' : Side} (hpc : x'.pc.Awake) (hword : x'.Unparked)
    (hhand : x'.hand = x.hand) (hqueued : x'.queued = x.queued) (hturn : x'.turn = x.turn)
    (hpublished : x'.published = x.published) (hrefusals : x'.refusals = x.refusals)
    (hhanded : x'.handed = x.handed) (henqueued : x'.enqueued = x.enqueued) : x'.Sound :=
  ⟨.awake hpc ⟨hword, by rw [hhand]; exact quiet.hands, by rw [hqueued]; exact quiet.queued⟩,
    h.books.of_same hturn hpublished hrefusals hhanded henqueued fun hcon => absurd hcon hdone⟩

/-- In `suspend_on` the turn is in no list yet. -/
theorem Side.Place.of_entering (h : x.Place) (hpc : x.pc.Entering) :
    x.Quiet ∧ x.turn ∉ x.published ∧ x.turn ∉ x.refusals ∧ x.turn ∉ x.enqueued := by
  cases h with
  | entering _ quiet unpublished unrefused unqueued =>
      exact ⟨quiet, unpublished, unrefused, unqueued⟩
  | awake hawake =>
      exfalso
      cases hx : x.pc with
      | swap cur => rw [hx] at hawake; exact hawake
      | _ => rw [hx] at hpc hawake; first | exact hpc | exact hawake
  | refused hx | parked hx | held _ hx | queued hx | dropped hx =>
      rw [hx] at hpc
      exact hpc.elim

theorem Side.Sound.enqueueSelf (h : x.Sound) (quiet : x.Quiet) (hnew : x.turn ∉ x.enqueued) :
    x.enqueueSelf.Sound := by
  refine ⟨.queued rfl quiet.unparked quiet.hands ?_, h.books.enqueue hnew rfl rfl rfl rfl rfl⟩
  change x.queued + 1 = 1
  rw [quiet.queued]

/-- `park` looks at the word, where it finds no handle. -/
theorem Side.Sound.look (h : x.Sound) (hpc : x.pc.Entering) :
    (x.goto (.swap x.word)).Sound := by
  obtain ⟨quiet, unpublished, unrefused, unqueued⟩ := h.place.of_entering hpc
  have hnext : (Pc.swap x.word).Entering := by
    cases hword : x.word with
    | parked g => exact absurd hword (quiet.unparked g)
    | idle | ready => trivial
  refine ⟨.entering hnext ⟨quiet.unparked, quiet.hands, quiet.queued⟩ unpublished unrefused
    unqueued, h.books.of_same rfl rfl rfl rfl rfl fun hcon => ?_⟩
  rw [hcon] at hpc
  exact hpc.elim

/-- A new turn, greater than every turn in the lists. -/
theorem Side.Sound.suspend (h : x.Sound) (hpc : x.pc = .clearBusy) {pc : Pc}
    (hentering : pc.Entering) : (x.suspend pc).Sound := by
  have hb := h.books
  have quiet := h.place.quiet (by simp [hpc])
  have hnew : ∀ l : List Nat, (∀ n ∈ l, n ≤ x.turn) → x.turn + 1 ∉ l := by
    intro l hl hmem
    have := hl _ hmem
    omega
  refine ⟨.entering hentering ⟨quiet.unparked, quiet.hands, quiet.queued⟩
    (hnew _ hb.publishedOld) (hnew _ hb.refusedOld) (hnew _ hb.enqueuedOld),
    hb.handedOnce, hb.enqueuedOnce, hb.handedPublished, fun n hn => ?_, fun n hn => ?_,
    fun n hn => ?_, fun n hn => ?_⟩
  · exact .inl ((hb.refusedQueued n hn).resolve_right fun hcon => by simp [hpc] at hcon)
  · exact Nat.le_succ_of_le (hb.publishedOld n hn)
  · exact Nat.le_succ_of_le (hb.refusedOld n hn)
  · exact Nat.le_succ_of_le (hb.enqueuedOld n hn)

theorem Side.Sound.consume (h : x.Sound) (hpc : x.pc = .swap .ready) : x.consume.Sound := by
  have hb := h.books
  obtain ⟨quiet, -, unrefused, unqueued⟩ := h.place.of_entering (by rw [hpc]; trivial)
  refine ⟨.refused rfl ⟨fun _ hg => Word.noConfusion hg, quiet.hands, quiet.queued⟩
    List.mem_cons_self unqueued, hb.handedOnce, hb.enqueuedOnce, hb.handedPublished,
    fun n hn => ?_, hb.publishedOld, fun n hn => ?_, hb.enqueuedOld⟩
  · obtain rfl | hn := List.mem_cons.mp hn
    · exact .inr ⟨rfl, rfl⟩
    · exact .inl ((hb.refusedQueued n hn).resolve_right fun hcon => by simp [hpc] at hcon)
  · obtain rfl | hn := List.mem_cons.mp hn
    · exact Nat.le_refl _
    · exact hb.refusedOld n hn

theorem Side.Sound.publish (h : x.Sound) (hpc : x.pc = .swap .idle) : x.publish.Sound := by
  have hb := h.books
  obtain ⟨quiet, unpublished, unrefused, unqueued⟩ :=
    h.place.of_entering (by rw [hpc]; trivial)
  refine ⟨.parked rfl rfl quiet.hands quiet.queued List.mem_cons_self
    (fun hin => unpublished (hb.handedPublished _ hin)) unrefused unqueued,
    hb.handedOnce, hb.enqueuedOnce, fun n hn => List.mem_cons_of_mem _ (hb.handedPublished n hn),
    fun n hn => ?_, fun n hn => ?_, hb.refusedOld, hb.enqueuedOld⟩
  · exact .inl ((hb.refusedQueued n hn).resolve_right fun hcon => by simp [hpc] at hcon)
  · obtain rfl | hn := List.mem_cons.mp hn
    · exact Nat.le_refl _
    · exact hb.publishedOld n hn

theorem Side.Sound.wake (h : x.Sound) (hpc : x.pc = .asleep) (hqueued : 0 < x.queued) :
    x.wake.Sound := by
  cases h.place with
  | queued _ unparked hands queued =>
      refine ⟨.awake trivial ⟨unparked, hands, ?_⟩,
        h.books.of_same rfl rfl rfl rfl rfl (by simp [hpc])⟩
      change x.queued - 1 = 0
      omega
  | awake hx | entering hx => rw [hpc] at hx; exact hx.elim
  | refused hx => simp [hpc] at hx
  | parked _ _ _ hnone | held _ _ _ _ _ hnone => omega
  | dropped _ quiet =>
      have := quiet.queued
      omega

theorem Side.Sound.reader (h : x.Sound) {build : Build} {closed : Bool} {d : Direction}
    {x' : Side} (hstep : ReaderStep build closed d x x') : x'.Sound := by
  have hquiet := h.place.quiet
  have hb := h.books
  cases hstep with
  | call g hpc | connect g hpc =>
      exact h.awake (hquiet (by simp [hpc])) (by simp [hpc]) trivial
        (hquiet (by simp [hpc])).unparked rfl rfl rfl rfl rfl rfl rfl
  | isArmed hpc =>
      refine h.awake (hquiet (by simp [hpc])) (by simp [hpc]) ?_
        (hquiet (by simp [hpc])).unparked rfl rfl rfl rfl rfl rfl rfl
      change (if x.word = .ready then Pc.disarm else .probe).Awake
      split <;> trivial
  | disarm hpc =>
      have quiet := hquiet (by simp [hpc])
      refine h.awake quiet (by simp [hpc]) trivial (fun g hg => ?_) rfl rfl rfl rfl rfl rfl rfl
      change (if x.word = .ready then Word.idle else x.word) = _ at hg
      split at hg
      · cases hg
      · exact quiet.unparked g hg
  | got k pc hpc _ _ _ hnext =>
      refine h.awake (hquiet (by simp [hpc])) (by simp [hpc]) ?_
        (hquiet (by simp [hpc])).unparked rfl rfl rfl rfl rfl rfl rfl
      obtain rfl | rfl := hnext <;> trivial
  | again pc hpc _ _ hnext =>
      refine h.awake (hquiet (by simp [hpc])) (by simp [hpc]) ?_
        (hquiet (by simp [hpc])).unparked rfl rfl rfl rfl rfl rfl rfl
      obtain rfl | rfl := hnext <;> trivial
  | exhausted hpc | interrupted hpc | error hpc =>
      exact h.awake (hquiet (by simp [hpc])) (by simp [hpc]) trivial
        (hquiet (by simp [hpc])).unparked rfl rfl rfl rfl rfl rfl rfl
  | resumed pc hpc hnext =>
      refine h.awake (hquiet (by simp [hpc])) (by simp [hpc]) ?_
        (hquiet (by simp [hpc])).unparked rfl rfl rfl rfl rfl rfl rfl
      obtain rfl | rfl := hnext <;> trivial
  | clearBusy hpc => exact h.suspend hpc (by cases build <;> trivial)
  | cancelled hpc =>
      obtain ⟨quiet, -, -, unqueued⟩ := h.place.of_entering (by rw [hpc]; trivial)
      exact h.enqueueSelf quiet unqueued
  | armCancel hpc =>
      obtain ⟨quiet, hlists⟩ := h.place.of_entering (by rw [hpc]; trivial)
      exact ⟨.entering trivial ⟨quiet.unparked, quiet.hands, quiet.queued⟩ hlists.1 hlists.2.1
        hlists.2.2, hb.of_same rfl rfl rfl rfl rfl (by simp [hpc])⟩
  | load hpc => exact h.look (by rw [hpc]; trivial)
  | retry cur hpc hcur =>
      refine h.look ?_
      rw [hpc]
      cases cur with
      | parked g => exact absurd rfl (hcur g)
      | idle | ready => trivial
  | consume hpc hword => exact h.consume hpc
  | publish hpc hword => exact h.publish hpc
  | taken g hpc =>
      -- `park` never saw another handle
      exfalso
      cases h.place with
      | awake hawake | entering hawake =>
          rw [hpc] at hawake
          exact hawake
      | refused hx | parked hx | held _ hx | queued hx | dropped hx => simp [hpc] at hx
  | refused hpc =>
      cases h.place with
      | refused _ quiet here unqueued => exact h.enqueueSelf quiet unqueued
      | awake hx | entering hx => rw [hpc] at hx; exact hx.elim
      | parked hx | held _ hx | queued hx | dropped hx => simp [hpc] at hx
  | wake hpc hqueued => exact h.wake hpc hqueued

end

theorem Side.Sound.kernel {x : Side} (h : x.Sound) (avail fresh edges : Nat) :
    { x with avail := avail, fresh := fresh, edges := edges }.Sound := by
  refine ⟨?_, h.books.of_same rfl rfl rfl rfl rfl fun hpc => hpc⟩
  have hquiet : x.Quiet →
      { x with avail := avail, fresh := fresh, edges := edges }.Quiet :=
    fun quiet => ⟨quiet.unparked, quiet.hands, quiet.queued⟩
  cases h.place with
  | awake hpc quiet => exact .awake hpc (hquiet quiet)
  | entering hpc quiet unpublished unrefused unqueued =>
      exact .entering hpc (hquiet quiet) unpublished unrefused unqueued
  | refused hpc quiet here unqueued => exact .refused hpc (hquiet quiet) here unqueued
  | parked hpc word hands queued here kept unrefused unqueued =>
      exact .parked hpc word hands queued here kept unrefused unqueued
  | held who hpc unparked hand others queued unrefused unqueued =>
      exact .held who hpc unparked hand others queued unrefused unqueued
  | queued hpc unparked hands queued => exact .queued hpc unparked hands queued
  | dropped hpc quiet => exact .dropped hpc (hquiet quiet)

/-! ## Both directions -/

def Socket.Sound (s : Socket) : Prop := ∀ d, (s.side d).Sound

section

variable {build : Build} {s s' : Socket}

theorem Socket.Sound.put (h : s.Sound) {d : Direction} {x : Side} (hx : x.Sound) :
    (s.put d x).Sound := by
  intro d'
  change (Function.update s.side d x d').Sound
  by_cases hd : d' = d
  · subst hd
    rw [Function.update_self]
    exact hx
  · rw [Function.update_of_ne hd]
    exact h d'

theorem Socket.Sound.step (h : s.Sound) (hstep : Step build s s') : s'.Sound := by
  cases hstep with
  | reader d x hreader => exact h.put ((h d).reader hreader)
  | arrive d => exact h.put ((h d).kernel _ _ _)
  | unpark d t g => exact h.put ((h d).unpark t g)
  | hookResume d t => exact h.put ((h d).resumeWaiter _)
  | poller s' hpoll =>
      cases hpoll with
      | wait => exact fun d => (h d).kernel _ _ _
      | skip | check | mark | finish => exact h
      | fireRead => exact h.put ((h .read).exchange .poller (by simp))
      | fireWrite => exact h.put ((h .write).exchange .poller (by simp))
      | resume d => exact h.put ((h d).resumeWaiter _)
  | callback s' hcall =>
      cases hcall with
      | start | claim | markBusy | markFails | epoch | unmark | disconnect | clearBusy
      | removeEvent | flag => exact h
      | takeRead => exact h.put ((h .read).exchange .callback (by simp))
      | takeWrite => exact h.put ((h .write).exchange .callback (by simp))
      | resumeRead => exact h.put ((h .read).resumeWaiter _)
      | resumeWrite => exact h.put ((h .write).resumeWaiter _)
      | abandonRead => exact h.put ((h .read).abandon _)
      | abandonWrite => exact h.put ((h .write).abandon _)

theorem socketSound_of_runs (h : Runs build s) : s.Sound := by
  induction h with
  | start => exact fun _ => sound_new
  | step _ hstep ih => exact ih.step hstep

end

end Uvent.Net.Waiter
