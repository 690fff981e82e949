import Uvent.Timers.Payloads
import Uvent.Timers.LazyMinimum
import Mathlib.Tactic.Ring

/-!
# How long a sleep lasts

The steady clock counts nanoseconds and the wheel milliseconds.  `sleep_for` and
`sleep_op` add one millisecond to the duration and truncate; the reading that
`addTimer` starts from and the readings of `tick` are truncated as well.
-/

namespace Uvent.Timers

open TimerWheel Relation

def nanosPerMilli : Nat := 10 ^ 6

structure SteadyClock where
  instant : Nat → Nat
  monotone : ∀ {i j : Nat}, i ≤ j → instant i ≤ instant j
  lt : ∀ i, instant i < 2 ^ 63

/-- `duration_cast<milliseconds>` of the time since the epoch. -/
def getCurrentTime (instant : Nat) : Nat := instant / nanosPerMilli

def SteadyClock.toClock (steady : SteadyClock) : Clock where
  reading i := getCurrentTime (steady.instant i)
  monotone h := Nat.div_le_div_right (steady.monotone h)
  lt i := by
    have hlt := steady.lt i
    have hle : getCurrentTime (steady.instant i) ≤ steady.instant i := Nat.div_le_self _ _
    omega

/-- `duration_cast<milliseconds>(d + milliseconds(1) - milliseconds(0))`, but at least `1`. -/
def sleepMillis (d : Nat) : Nat :=
  max 1 ((d + 1 * nanosPerMilli - 0 * nanosPerMilli) / nanosPerMilli)

/-- The timer of `sleep_for`, bound to the coroutine. -/
def sleepForTimer (d coro : Nat) : Timer :=
  ⟨0, sleepMillis d, some coro, none, 0, true, true, 0, 0, 0, 0⟩

/-- The timer of `sleep_op`, armed with its callback. -/
def sleepOpTimer (d fn arg : Nat) : Timer :=
  ⟨0, sleepMillis d, none, some fn, arg, true, true, 0, 0, 0, 0⟩

/-- When the wheel reaches the expiry, the duration is over since `start`. -/
def NeverShort (start d expiry : Nat) : Prop :=
  ∀ instant, expiry ≤ getCurrentTime instant → start + d ≤ instant

/-! ## The three truncations -/

section Truncation

variable {start d : Nat}

theorem sleepMillis_eq (d : Nat) : sleepMillis d = d / nanosPerMilli + 1 := by
  unfold sleepMillis
  have hone : (d + 1 * nanosPerMilli - 0 * nanosPerMilli) / nanosPerMilli = d / nanosPerMilli + 1 := by
    rw [Nat.zero_mul, Nat.sub_zero, Nat.one_mul]
    exact Nat.add_div_right d (by decide)
  rw [hone]
  exact Nat.max_eq_right (Nat.le_add_left 1 _)

theorem le_getCurrentTime_iff {ms instant : Nat} :
    ms ≤ getCurrentTime instant ↔ ms * nanosPerMilli ≤ instant :=
  Nat.le_div_iff_mul_le (by decide)

/-- The added millisecond covers the two lost fractions when their sum is at most one. -/
theorem neverShort_iff :
    NeverShort start d (getCurrentTime start + sleepMillis d) ↔
      start % nanosPerMilli + d % nanosPerMilli ≤ nanosPerMilli := by
  have hstart := Nat.div_add_mod' start nanosPerMilli
  have hdur := Nat.div_add_mod' d nanosPerMilli
  have hexpiry : (getCurrentTime start + sleepMillis d) * nanosPerMilli =
      start / nanosPerMilli * nanosPerMilli + d / nanosPerMilli * nanosPerMilli + nanosPerMilli := by
    rw [sleepMillis_eq, getCurrentTime]
    ring
  constructor
  · intro hnever
    have hfirst := hnever ((getCurrentTime start + sleepMillis d) * nanosPerMilli)
      (le_getCurrentTime_iff.mpr le_rfl)
    omega
  · intro hsum instant hreached
    have hle := le_getCurrentTime_iff.mp hreached
    omega

end Truncation

/-! ## From the arming to the firing -/

def Numbered (w : TimerWheel) : Prop :=
  ∀ id, (∃ t pl, Event.fired id t pl ∈ w.log) ∨ (∃ e c, Event.drained id e c ∈ w.log) →
    id ≤ w.timerIdCounter

/-- The id belongs to a timer armed for `expiry`: it waits in the queue or in the map with
that expiry, and it was never drained with another one or fired before it. -/
structure Scheduled (id expiry : Nat) (w : TimerWheel) : Prop where
  issued : id ≤ w.timerIdCounter
  queued : ∀ p, Op.add p id ∈ w.timerOperationsQueue →
    id ∈ w.detachedPending ∨ id ∈ w.cancelledPending ∨ (w.mem p).expiryTime = expiry
  mapped : ∀ p, w.timerMap id = some p → (w.mem p).expiryTime = expiry
  drained : ∀ e c, Event.drained id e c ∈ w.log → e = expiry
  fired : ∀ t pl, Event.fired id t pl ∈ w.log → expiry ≤ t

section Scheduled

variable {policy : Policy} {w w' : TimerWheel} {p : Ptr} {id expiry : Nat}

theorem Numbered.of_log (h : Numbered w) {l : List Event} (hlog : w'.log = l ++ w.log)
    (hcounter : w.timerIdCounter ≤ w'.timerIdCounter)
    (hnew : ∀ id, (∃ t pl, Event.fired id t pl ∈ l) ∨ (∃ e c, Event.drained id e c ∈ l) →
      id ≤ w.timerIdCounter) : Numbered w' := by
  intro id hid
  refine Nat.le_trans ?_ hcounter
  rw [hlog] at hid
  rcases hid with ⟨t, pl, hmem⟩ | ⟨e, c, hmem⟩
  · rcases List.mem_append.mp hmem with hin | hold
    · exact hnew id (.inl ⟨t, pl, hin⟩)
    · exact h id (.inl ⟨t, pl, hold⟩)
  · rcases List.mem_append.mp hmem with hin | hold
    · exact hnew id (.inr ⟨e, c, hin⟩)
    · exact h id (.inr ⟨e, c, hold⟩)

theorem Numbered.of_same (h : Numbered w) (hlog : w'.log = w.log)
    (hcounter : w'.timerIdCounter = w.timerIdCounter) : Numbered w' :=
  h.of_log (l := []) hlog hcounter.ge (by simp)

theorem Inv.id_le (h : Inv w) (hp : w.timerMap id = some p) : id ≤ w.timerIdCounter :=
  (h.mapped id p hp).2.trans h.issued

theorem Numbered.effect (hn : Numbered w) (h : Inv w) (heff : Effect policy w w') :
    Numbered w' := by
  cases heff with
  | quiet still books =>
      exact hn.of_same (congrArg Books.log books) (congrArg Books.timerIdCounter books)
  | refresh hb hm books =>
      exact hn.of_same (congrArg Books.log books) (congrArg Books.timerIdCounter books)
  | note e plain still books =>
      refine hn.of_log (l := [e]) (congrArg Books.log books)
        (congrArg Books.timerIdCounter books).ge fun id hid => ?_
      cases e <;> first | exact False.elim plain | simp at hid
  | refused x _ _ still books =>
      exact hn.of_log (l := [.refused x]) (congrArg Books.log books)
        (congrArg Books.timerIdCounter books).ge (by simp)
  | update x newDur still books =>
      exact hn.of_same (congrArg Books.log books) (congrArg Books.timerIdCounter books)
  | remove x done _ still books =>
      exact hn.of_same (congrArg Books.log books) (congrArg Books.timerIdCounter books)
  | add p t e ok hb hm books =>
      have hcounter : w'.timerIdCounter = w.timerIdCounter + 1 :=
        congrArg Books.timerIdCounter books
      exact hn.of_log (l := [.added (w.timerIdCounter + 1) p t.payload])
        (congrArg Books.log books) (by omega) (by simp)
  | pendCancel x _ _ _ _ still books =>
      exact hn.of_log (l := [.cancelled x]) (congrArg Books.log books)
        (congrArg Books.timerIdCounter books).ge (by simp)
  | pendDetach x _ _ _ _ still books =>
      exact hn.of_log (l := [.cancelled x]) (congrArg Books.log books)
        (congrArg Books.timerIdCounter books).ge (by simp)
  | pendRemove x done rest plain released hplain _ _ _ still books =>
      refine hn.of_log (l := plain ++ [.removed x]) ?_ (congrArg Books.timerIdCounter books).ge ?_
      · rw [List.append_assoc]
        exact congrArg Books.log books
      · rintro id (⟨t, pl, hmem⟩ | ⟨e, c, hmem⟩)
        · rcases List.mem_append.mp hmem with hin | hin
          · exact False.elim (hplain _ hin)
          · simp at hin
        · rcases List.mem_append.mp hmem with hin | hin
          · exact False.elim (hplain _ hin)
          · simp at hin
  | release x _ _ still books =>
      exact hn.of_same (congrArg Books.log books) (congrArg Books.timerIdCounter books)
  | pop op rest _ _ still books =>
      exact hn.of_same (congrArg Books.log books) (congrArg Books.timerIdCounter books)
  | dropDetached p x rest _ _ still books =>
      exact hn.of_same (congrArg Books.log books) (congrArg Books.timerIdCounter books)
  | dropCancelled p x rest _ _ _ hb hm books =>
      exact hn.of_same (congrArg Books.log books) (congrArg Books.timerIdCounter books)
  | accept p x rest head attached live moved books =>
      refine hn.of_log (l := [.drained (w.mem p).id (w.mem p).expiryTime w.currentTime])
        (congrArg Books.log books) (congrArg Books.timerIdCounter books).ge fun id hid => ?_
      have hq : Op.add p x ∈ w.timerOperationsQueue := by rw [head]; exact List.mem_cons_self
      have hid' : id = (w.mem p).id := by simpa using hid
      rw [hid', (h.live p x hq live attached).1]
      exact (h.queued_bounds hq).2
  | rearm x p newDur e mapped moved books =>
      refine hn.of_log (l := [.drained x e w.currentTime])
        (congrArg Books.log books) (congrArg Books.timerIdCounter books).ge fun id hid => ?_
      have hid' : id = x := by simpa using hid
      rw [hid']
      exact h.id_le mapped
  | unlink x p e kind _ moved books =>
      refine hn.of_log (l := [e]) (congrArg Books.log books)
        (congrArg Books.timerIdCounter books).ge ?_
      rcases kind with rfl | rfl <;> simp
  | fire p _ holds _ moved books =>
      refine hn.of_log (l := [.fired (w.mem p).id w.currentTime (w.mem p).payload])
        (congrArg Books.log books) (congrArg Books.timerIdCounter books).ge fun id hid => ?_
      have hid' : id = (w.mem p).id := by simpa using hid
      rw [hid']
      exact h.id_le (h.known p holds).2
  | relink p _ _ _ moved books =>
      exact hn.of_same (congrArg Books.log books) (congrArg Books.timerIdCounter books)
  | pass _ still books =>
      exact hn.of_same (congrArg Books.log books) (congrArg Books.timerIdCounter books)

theorem numbered_new (clock : Clock) : Numbered (TimerWheel.new clock) := by
  rintro id (⟨t, pl, hmem⟩ | ⟨e, c, hmem⟩) <;> cases hmem

/-- Neither the timers nor the map change, no mark is lost and no `ADD` of the id is new. -/
theorem Scheduled.of_same (h : Scheduled id expiry w)
    (hcounter : w'.timerIdCounter = w.timerIdCounter) (hm : w'.mem = w.mem)
    (hmap : w'.timerMap = w.timerMap)
    (hqueue : ∀ p, Op.add p id ∈ w'.timerOperationsQueue → Op.add p id ∈ w.timerOperationsQueue ∧
      (id ∈ w.detachedPending → id ∈ w'.detachedPending) ∧
      (id ∈ w.cancelledPending → id ∈ w'.cancelledPending))
    (hdrained : ∀ e c, Event.drained id e c ∈ w'.log → e = expiry)
    (hfired : ∀ t pl, Event.fired id t pl ∈ w'.log → Event.fired id t pl ∈ w.log) :
    Scheduled id expiry w' := by
  refine ⟨hcounter.symm ▸ h.issued, fun q hq => ?_, fun q hq => ?_, hdrained,
    fun t pl hmem => h.fired t pl (hfired t pl hmem)⟩
  · obtain ⟨hold, hdetached, hcancelled⟩ := hqueue q hq
    rw [hm]
    rcases h.queued q hold with hin | hin | heq
    · exact .inl (hdetached hin)
    · exact .inr (.inl (hcancelled hin))
    · exact .inr (.inr heq)
  · rw [hmap] at hq
    rw [hm]
    exact h.mapped q hq

theorem fired_before {l : List Event} (hlog : w'.log = l ++ w.log)
    (hnone : ∀ t pl, Event.fired id t pl ∉ l) :
    ∀ t pl, Event.fired id t pl ∈ w'.log → Event.fired id t pl ∈ w.log := by
  intro t pl hmem
  rw [hlog] at hmem
  exact (List.mem_append.mp hmem).resolve_left (hnone t pl)

theorem Scheduled.of_books (h : Scheduled id expiry w) (hm : w'.mem = w.mem)
    (hcounter : w'.timerIdCounter = w.timerIdCounter) (hmap : w'.timerMap = w.timerMap)
    (hops : w'.timerOperationsQueue = w.timerOperationsQueue)
    (hd : w'.detachedPending = w.detachedPending)
    (hc : w'.cancelledPending = w.cancelledPending) (hlog : w'.log = w.log)
    (hdrained : ∀ e c, Event.drained id e c ∈ w'.log → e = expiry) : Scheduled id expiry w' := by
  refine h.of_same hcounter hm hmap (fun q hq => ?_) hdrained fun t pl hmem => ?_
  · rw [hops] at hq
    rw [hd, hc]
    exact ⟨hq, fun hin => hin, fun hin => hin⟩
  · rwa [hlog] at hmem

theorem Inv.ne_of_rest (h : Inv w) {x y : Nat} {rest : List Op} {q : Ptr}
    (head : w.timerOperationsQueue = .add p x :: rest) (hq : Op.add q y ∈ rest) : y ≠ x := by
  have hy := mem_addIds hq
  rw [(h.head_id head).2.2, List.mem_range'_1] at hy
  omega

theorem Scheduled.of_still (h : Scheduled id expiry w) (still : Still w w')
    {ops : List Op} {cancelled detached : Finset Nat} {largest : Nat} {released : Finset Ptr}
    {l : List Event}
    (books : w'.books = { w.books with
      timerOperationsQueue := ops, cancelledPending := cancelled, detachedPending := detached,
      maxAddedId := largest, released := released, log := l ++ w.log })
    (hqueue : ∀ p, Op.add p id ∈ ops → Op.add p id ∈ w.timerOperationsQueue ∧
      (id ∈ w.detachedPending → id ∈ detached) ∧ (id ∈ w.cancelledPending → id ∈ cancelled))
    (hnone : ∀ t pl, Event.fired id t pl ∉ l)
    (hdrained : ∀ e c, Event.drained id e c ∈ w'.log → e = expiry) : Scheduled id expiry w' := by
  have hops : w'.timerOperationsQueue = ops := congrArg Books.timerOperationsQueue books
  have hc : w'.cancelledPending = cancelled := congrArg Books.cancelledPending books
  have hd : w'.detachedPending = detached := congrArg Books.detachedPending books
  apply h.of_same (congrArg Books.timerIdCounter books) still.mem (congrArg Books.timerMap books) _
    hdrained (fired_before (congrArg Books.log books) hnone)
  rw [hops, hc, hd]
  exact hqueue

/-- The timers move; the id may leave the map, and it keeps its expiry while it is there. -/
theorem Scheduled.of_moved (h : Scheduled id expiry w) {target : Option (Nat × Nat)}
    {f : Timer → Timer} (moved : Moved w w' p target f)
    (hcounter : w'.timerIdCounter = w.timerIdCounter)
    (hmap : ∀ q, w'.timerMap id = some q → (w.timerMap id = some q ∧ q ≠ p) ∨
      (q = p ∧ (f (w.mem p)).expiryTime = expiry))
    (hqueue : ∀ q, Op.add q id ∈ w'.timerOperationsQueue → Op.add q id ∈ w.timerOperationsQueue ∧
      (id ∈ w.detachedPending → id ∈ w'.detachedPending) ∧
      (id ∈ w.cancelledPending → id ∈ w'.cancelledPending) ∧
      ((id ∉ w.detachedPending ∧ id ∉ w.cancelledPending) → q ≠ p))
    (hdrained : ∀ e c, Event.drained id e c ∈ w'.log → e = expiry)
    (hfired : ∀ t pl, Event.fired id t pl ∈ w'.log →
      Event.fired id t pl ∈ w.log ∨ expiry ≤ t) : Scheduled id expiry w' := by
  refine ⟨hcounter.symm ▸ h.issued, fun q hq => ?_, fun q hq => ?_, hdrained, fun t pl hmem => ?_⟩
  · obtain ⟨hold, hdetached, hcancelled, hne⟩ := hqueue q hq
    by_cases hd : id ∈ w.detachedPending
    · exact .inl (hdetached hd)
    · by_cases hc : id ∈ w.cancelledPending
      · exact .inr (.inl (hcancelled hc))
      · rw [moved.expiryTime_of_ne (hne ⟨hd, hc⟩)]
        exact .inr (.inr (((h.queued q hold).resolve_left hd).resolve_left hc))
  · rcases hmap q hq with ⟨hold, hne⟩ | ⟨rfl, heq⟩
    · rw [moved.expiryTime_of_ne hne]
      exact h.mapped q hold
    · exact (Timer.expiryTime_of_unplaced moved.self).trans heq
  · rcases hfired t pl hmem with hold | hle
    · exact h.fired t pl hold
    · exact hle

/-- The queue and the marks are the same when `p` moves, which no live `ADD` will put in the
wheel. -/
theorem Inv.queue_passes (h : Inv w) (hops : w'.timerOperationsQueue = w.timerOperationsQueue)
    (hd : w'.detachedPending = w.detachedPending)
    (hc : w'.cancelledPending = w.cancelledPending) (holds : w.Holds p) :
    ∀ q, Op.add q id ∈ w'.timerOperationsQueue →
      Op.add q id ∈ w.timerOperationsQueue ∧ (id ∈ w.detachedPending → id ∈ w'.detachedPending) ∧
      (id ∈ w.cancelledPending → id ∈ w'.cancelledPending) ∧
      ((id ∉ w.detachedPending ∧ id ∉ w.cancelledPending) → q ≠ p) := by
  intro q hq
  rw [hops] at hq
  rw [hd, hc]
  refine ⟨hq, fun hin => hin, fun hin => hin, ?_⟩
  rintro ⟨hdet, hcan⟩ rfl
  exact (h.live q id hq hcan hdet).2.2 holds

/-- An id that leaves the map is no longer that of any timer. -/
theorem Inv.mapped_of_unmapped (h : Inv w) {x : Nat}
    (hmap : w'.timerMap = Function.update w.timerMap x none) (hp : w.timerMap x = some p) :
    ∀ q, w'.timerMap id = some q → w.timerMap id = some q ∧ q ≠ p := by
  intro q hq
  rw [hmap] at hq
  have hx : id ≠ x := by
    rintro rfl
    rw [Function.update_self] at hq
    cases hq
  rw [Function.update_of_ne hx] at hq
  refine ⟨hq, ?_⟩
  rintro rfl
  exact hx ((h.held id q hq).1.symm.trans (h.held x q hp).1)

theorem Scheduled.add (hs : Scheduled id expiry w) {t : Timer} {e : Nat} (ok : AddOk w p t)
    (hm : w'.mem = Function.update w.mem p { t with expiryTime := e, id := w.timerIdCounter + 1 })
    (books : w'.books =
      { w.books with
        timerIdCounter := w.timerIdCounter + 1,
        timerOperationsQueue := w.timerOperationsQueue ++ [.add p (w.timerIdCounter + 1)],
        addedAs := Function.update w.addedAs (w.timerIdCounter + 1) (some p),
        released := w.released.erase p,
        log := .added (w.timerIdCounter + 1) p t.payload :: w.log })
    (hdrained : ∀ e c, Event.drained id e c ∈ w'.log → e = expiry) : Scheduled id expiry w' := by
  have hcounter : w'.timerIdCounter = w.timerIdCounter + 1 :=
    congrArg Books.timerIdCounter books
  have hops : w'.timerOperationsQueue =
      w.timerOperationsQueue ++ [.add p (w.timerIdCounter + 1)] :=
    congrArg Books.timerOperationsQueue books
  have hd : w'.detachedPending = w.detachedPending := congrArg Books.detachedPending books
  have hc : w'.cancelledPending = w.cancelledPending := congrArg Books.cancelledPending books
  have hmap : w'.timerMap = w.timerMap := congrArg Books.timerMap books
  have hissued := hs.issued
  refine ⟨by omega, fun q hq => ?_, fun q hq => ?_, hdrained, fun τ pl hmem => ?_⟩
  · rw [hops, List.mem_append, List.mem_singleton] at hq
    rcases hq with hold | hnew
    · rw [hd, hc, hm]
      by_cases hqp : q = p
      · rw [hqp] at hold
        rcases ok.queued id hold with hin | ⟨hin, -⟩
        · exact .inl hin
        · exact .inr (.inl hin)
      · rw [Function.update_of_ne hqp]
        exact hs.queued q hold
    · have hid : id = w.timerIdCounter + 1 := (Op.add.inj hnew).2
      omega
  · rw [hmap] at hq
    have hqp : q ≠ p := by
      rintro rfl
      exact ok.unmapped id hq
    rw [hm, Function.update_of_ne hqp]
    exact hs.mapped q hq
  · exact hs.fired τ pl (fired_before (l := [.added (w.timerIdCounter + 1) p t.payload])
      (congrArg Books.log books) (by simp) τ pl hmem)

theorem Scheduled.dropCancelled (hs : Scheduled id expiry w) (h : Inv w) {x : Nat}
    {rest : List Op} (head : w.timerOperationsQueue = .add p x :: rest) (hm : w'.mem = w.mem)
    (books : w'.books =
      { w.books with
        timerOperationsQueue := rest, maxAddedId := max w.maxAddedId x,
        cancelledPending := w.cancelledPending.erase x })
    (hdrained : ∀ e c, Event.drained id e c ∈ w'.log → e = expiry) : Scheduled id expiry w' := by
  have hops : w'.timerOperationsQueue = rest := congrArg Books.timerOperationsQueue books
  have hd : w'.detachedPending = w.detachedPending := congrArg Books.detachedPending books
  have hc : w'.cancelledPending = w.cancelledPending.erase x :=
    congrArg Books.cancelledPending books
  refine hs.of_same (congrArg Books.timerIdCounter books) hm (congrArg Books.timerMap books)
    (fun q hq => ?_) hdrained (fired_before (l := []) (congrArg Books.log books) (by simp))
  rw [hops] at hq
  rw [hd, hc]
  refine ⟨?_, fun hin => hin, fun hin => Finset.mem_erase.mpr ⟨h.ne_of_rest head hq, hin⟩⟩
  rw [head]
  exact List.mem_cons_of_mem _ hq

theorem Scheduled.accept (hs : Scheduled id expiry w) (h : Inv w) {x : Nat} {rest : List Op}
    {target : Option (Nat × Nat)} (head : w.timerOperationsQueue = .add p x :: rest)
    (attached : x ∉ w.detachedPending) (live : x ∉ w.cancelledPending)
    (moved : Moved w w' p target fun t => t)
    (books : w'.books =
      { w.books with
        timerOperationsQueue := rest, maxAddedId := max w.maxAddedId x,
        timerMap := Function.update w.timerMap (w.mem p).id (some p),
        activeTimerCount := w.activeTimerCount + 1,
        log := .drained (w.mem p).id (w.mem p).expiryTime w.currentTime :: w.log })
    (hdrained : ∀ e c, Event.drained id e c ∈ w'.log → e = expiry) : Scheduled id expiry w' := by
  have hq : Op.add p x ∈ w.timerOperationsQueue := by rw [head]; exact List.mem_cons_self
  obtain ⟨hid, -, hnot⟩ := h.live p x hq live attached
  have hlog : w'.log = [.drained (w.mem p).id (w.mem p).expiryTime w.currentTime] ++ w.log :=
    congrArg Books.log books
  have hmap : w'.timerMap = Function.update w.timerMap (w.mem p).id (some p) :=
    congrArg Books.timerMap books
  have hops : w'.timerOperationsQueue = rest := congrArg Books.timerOperationsQueue books
  have hd : w'.detachedPending = w.detachedPending := congrArg Books.detachedPending books
  have hc : w'.cancelledPending = w.cancelledPending := congrArg Books.cancelledPending books
  refine hs.of_moved moved (congrArg Books.timerIdCounter books) (fun q hmapped => ?_)
    (fun q hrest => ?_) hdrained fun t pl hmem => .inl (fired_before hlog (by simp) t pl hmem)
  · rw [hmap] at hmapped
    by_cases hself : id = (w.mem p).id
    · rw [hself, Function.update_self] at hmapped
      refine .inr ⟨(Option.some.inj hmapped).symm, hdrained _ w.currentTime ?_⟩
      rw [hlog, ← hself]
      exact List.mem_cons_self
    · rw [Function.update_of_ne hself] at hmapped
      refine .inl ⟨hmapped, ?_⟩
      rintro rfl
      exact hnot (h.held id q hmapped).2
  · rw [hops] at hrest
    have hold : Op.add q id ∈ w.timerOperationsQueue := by
      rw [head]
      exact List.mem_cons_of_mem _ hrest
    rw [hd, hc]
    refine ⟨hold, fun hin => hin, fun hin => hin, ?_⟩
    rintro ⟨hdet, hcan⟩ rfl
    exact h.ne_of_rest head hrest ((h.live q id hold hcan hdet).1.symm.trans hid)

theorem Scheduled.stays (hs : Scheduled id expiry w) (h : Inv w) {target : Option (Nat × Nat)}
    {f : Timer → Timer} {l : List Event} (holds : w.Holds p) (moved : Moved w w' p target f)
    (books : w'.books = { w.books with log := l ++ w.log })
    (hself : w.timerMap id = some p → (f (w.mem p)).expiryTime = expiry)
    (hquiet : ∀ t pl, Event.fired id t pl ∉ l)
    (hdrained : ∀ e c, Event.drained id e c ∈ w'.log → e = expiry) : Scheduled id expiry w' := by
  have hmap : w'.timerMap = w.timerMap := congrArg Books.timerMap books
  refine hs.of_moved moved (congrArg Books.timerIdCounter books) (fun q hmapped => ?_)
    (h.queue_passes (congrArg Books.timerOperationsQueue books)
      (congrArg Books.detachedPending books) (congrArg Books.cancelledPending books) holds)
    hdrained fun t pl hmem => .inl (fired_before (congrArg Books.log books) hquiet t pl hmem)
  rw [hmap] at hmapped
  by_cases hqp : q = p
  · rw [hqp] at hmapped
    exact .inr ⟨hqp, hself hmapped⟩
  · exact .inl ⟨hmapped, hqp⟩

theorem Scheduled.leaves (hs : Scheduled id expiry w) (h : Inv w) {x : Nat} {e : Event}
    {target : Option (Nat × Nat)} {f : Timer → Timer} (mapped : w.timerMap x = some p)
    (moved : Moved w w' p target f)
    (books : w'.books =
      { w.books with
        timerMap := Function.update w.timerMap x none,
        activeTimerCount := w.activeTimerCount - 1, log := e :: w.log })
    (hdue : ∀ t pl, e = .fired id t pl → expiry ≤ t)
    (hdrained : ∀ e c, Event.drained id e c ∈ w'.log → e = expiry) : Scheduled id expiry w' := by
  have hlog : w'.log = e :: w.log := congrArg Books.log books
  refine hs.of_moved moved (congrArg Books.timerIdCounter books)
    (fun q hq => .inl (h.mapped_of_unmapped (congrArg Books.timerMap books) mapped q hq))
    (h.queue_passes (congrArg Books.timerOperationsQueue books)
      (congrArg Books.detachedPending books) (congrArg Books.cancelledPending books)
      (h.held x p mapped).2) hdrained fun t pl hmem => ?_
  rw [hlog] at hmem
  rcases List.mem_cons.mp hmem with heq | hold
  · exact .inr (hdue t pl heq.symm)
  · exact .inl hold

theorem Scheduled.effect (hs : Scheduled id expiry w) (h : Inv w) (heff : Effect policy w w')
    (hdrained : ∀ e c, Event.drained id e c ∈ w'.log → e = expiry) : Scheduled id expiry w' := by
  have hkeep : ∀ q, Op.add q id ∈ w.timerOperationsQueue → Op.add q id ∈ w.timerOperationsQueue ∧
      (id ∈ w.detachedPending → id ∈ w.detachedPending) ∧
      (id ∈ w.cancelledPending → id ∈ w.cancelledPending) :=
    fun q hq => ⟨hq, fun hd => hd, fun hc => hc⟩
  cases heff with
  | quiet still books => exact hs.of_still (l := []) still books hkeep (by simp) hdrained
  | refresh hb hm books =>
      exact hs.of_books hm (congrArg Books.timerIdCounter books)
        (congrArg Books.timerMap books) (congrArg Books.timerOperationsQueue books)
        (congrArg Books.detachedPending books) (congrArg Books.cancelledPending books)
        (congrArg Books.log books) hdrained
  | note e plain still books =>
      refine hs.of_still (l := [e]) still books hkeep (fun t pl hmem => ?_) hdrained
      rw [List.mem_singleton] at hmem
      rw [← hmem] at plain
      exact plain
  | refused x _ _ still books =>
      exact hs.of_still (l := [.refused x]) still books hkeep (by simp) hdrained
  | update x newDur still books =>
      refine hs.of_still (l := []) still books (fun q hq => hkeep q ?_) (by simp) hdrained
      simpa using hq
  | remove x done _ still books =>
      refine hs.of_still (l := []) still books (fun q hq => hkeep q ?_) (by simp) hdrained
      simpa using hq
  | add p t e ok hb hm books => exact hs.add ok hm books hdrained
  | pendCancel x _ _ _ _ still books =>
      exact hs.of_still (l := [.cancelled x]) still books
        (fun q hq => ⟨hq, fun hd => hd, fun hc => Finset.mem_insert_of_mem hc⟩) (by simp) hdrained
  | pendDetach x _ _ _ _ still books =>
      exact hs.of_still (l := [.cancelled x]) still books
        (fun q hq => ⟨hq, fun hd => Finset.mem_insert_of_mem hd, fun hc => hc⟩) (by simp) hdrained
  | pendRemove x done rest plain released hplain head _ _ still books =>
      refine hs.of_still (l := plain ++ [.removed x]) still
        (books.trans (by rw [List.append_assoc]; rfl)) (fun q hq => ?_) (fun t pl hmem => ?_) hdrained
      · refine ⟨?_, fun hd => hd, fun hc => Finset.mem_insert_of_mem hc⟩
        rw [head]
        exact List.mem_cons_of_mem _ hq
      · rcases List.mem_append.mp hmem with hin | hin
        · exact hplain _ hin
        · simp at hin
  | release x _ _ still books => exact hs.of_still (l := []) still books hkeep (by simp) hdrained
  | pop op rest head _ still books =>
      refine hs.of_still (l := []) still books (fun q hq => hkeep q ?_) (by simp) hdrained
      rw [head]
      exact List.mem_cons_of_mem _ hq
  | dropDetached p x rest head _ still books =>
      refine hs.of_still (l := []) still books (fun q hq => ⟨?_, fun hd => ?_, fun hc => hc⟩)
        (by simp) hdrained
      · rw [head]
        exact List.mem_cons_of_mem _ hq
      · exact Finset.mem_erase.mpr ⟨h.ne_of_rest head hq, hd⟩
  | dropCancelled p x rest head _ _ hb hm books => exact hs.dropCancelled h head hm books hdrained
  | accept p x rest head attached live moved books =>
      exact hs.accept h head attached live moved books hdrained
  | rearm x p newDur e mapped moved books =>
      refine hs.stays (l := [.drained x e w.currentTime]) h (h.held x p mapped).2 moved books
        (fun hself => hdrained e w.currentTime ?_) (by simp) hdrained
      have hid : x = id := (h.held x p mapped).1.symm.trans (h.held id p hself).1
      rw [show w'.log = .drained x e w.currentTime :: w.log from congrArg Books.log books, hid]
      exact List.mem_cons_self
  | unlink x p e kind mapped moved books =>
      refine hs.leaves h mapped moved books (fun t pl heq => ?_) hdrained
      rcases kind with rfl | rfl <;> cases heq
  | fire p _ holds due moved books =>
      have hknown := (h.known p holds).2
      refine hs.leaves h hknown moved books (fun t pl heq => ?_) hdrained
      obtain ⟨hself, htime, -⟩ := Event.fired.inj heq
      rw [hself] at hknown
      rw [← htime, ← hs.mapped p hknown]
      exact due
  | relink p _ holds _ moved books =>
      exact hs.stays (l := []) h holds moved books (hs.mapped p) (by simp) hdrained
  | pass _ still books =>
      exact hs.of_books still.mem (congrArg Books.timerIdCounter books)
        (congrArg Books.timerMap books) (congrArg Books.timerOperationsQueue books)
        (congrArg Books.detachedPending books) (congrArg Books.cancelledPending books)
        (congrArg Books.log books) hdrained

theorem Scheduled.effects (hs : Scheduled id expiry w) (h : Inv w) (heffs : Effects policy w w')
    (hdrained : ∀ e c, Event.drained id e c ∈ w'.log → e = expiry) : Scheduled id expiry w' := by
  induction heffs with
  | refl => exact hs
  | @tail b c hpre heff ih =>
      obtain ⟨l, hlog⟩ := heff.log_eq
      have hbefore : ∀ e c, Event.drained id e c ∈ b.log → e = expiry := fun e c hmem =>
        hdrained e c (by rw [hlog]; exact List.mem_append_right l hmem)
      exact (ih hbefore).effect (h.effects hpre) heff hdrained

end Scheduled

/-! ## What each call says about draining -/

section Draining

variable {clock : Clock} {w w' : TimerWheel} {p : Ptr} {id expiry e c : Nat}

structure Undrained (w w' : TimerWheel) : Prop where
  queue : w'.timerOperationsQueue = w.timerOperationsQueue
  drained : ∀ id e c, Event.drained id e c ∈ w'.log → Event.drained id e c ∈ w.log

theorem Undrained.trans {w'' : TimerWheel} (h : Undrained w w') (h' : Undrained w' w'') :
    Undrained w w'' :=
  ⟨h'.queue.trans h.queue, fun id e c hmem => h.drained id e c (h'.drained id e c hmem)⟩

theorem undrained_record (w : TimerWheel) {event : Event}
    (hevent : ∀ id e c, event ≠ .drained id e c) : Undrained w (w.record event) := by
  refine ⟨rfl, fun id e c hmem => ?_⟩
  rcases List.mem_cons.mp hmem with heq | hold
  · exact absurd heq.symm (hevent id e c)
  · exact hold

theorem undrained_dispose (w : TimerWheel) (p : Ptr) : Undrained w (w.dispose p) := by
  refine ⟨(dispose_same w p).1, fun id e c => ?_⟩
  unfold dispose
  cases (w.mem p).coro <;> cases (w.mem p).heap <;>
    simp [destroyCoro, deleteIf, record, touch]

theorem undrained_release (w : TimerWheel) (x : Nat) : Undrained w (w.release x) := by
  have hlog : (w.release x).log = w.log := congrArg Books.log (release_books w x)
  refine ⟨congrArg Books.timerOperationsQueue (release_books w x), fun id e c hmem => ?_⟩
  rwa [hlog] at hmem

theorem undrained_unlink (h : Inv w) {x : Nat} (hp : w.timerMap x = some p) {event : Event}
    (hevent : ∀ id e c, event ≠ .drained id e c) :
    Undrained w (((w.touch p).unlink x p).record event) := by
  have hlog : ((w.touch p).unlink x p).log = w.log := congrArg Books.log (unlink_books h hp)
  have hunlink : Undrained w ((w.touch p).unlink x p) := by
    refine ⟨congrArg Books.timerOperationsQueue (unlink_books h hp), fun id e c hmem => ?_⟩
    rwa [hlog] at hmem
  exact hunlink.trans (undrained_record _ hevent)

theorem cancelTimer_undrained (h : Inv w) (x : Nat) : Undrained w (w.cancelTimer x).2 := by
  unfold cancelTimer
  split
  · exact undrained_record w (by simp)
  · cases hp : w.timerMap x with
    | none =>
        dsimp only
        split
        · have hmark : Undrained w (w.markCancelled x) := ⟨rfl, fun _ _ _ hmem => hmem⟩
          have hmarked : Undrained w ((w.markCancelled x).record (.cancelled x)) :=
            hmark.trans (undrained_record _ (by simp))
          dsimp only
          split
          · exact hmarked.trans (undrained_release _ x)
          · exact hmarked
        · exact undrained_record w (by simp)
    | some p =>
        dsimp only
        rw [if_pos (h.active_of_mapped hp)]
        have hdisposed : Undrained w
            ((((w.touch p).unlink x p).record (.cancelled x)).dispose p) :=
          (undrained_unlink h hp (by simp)).trans (undrained_dispose _ p)
        dsimp only
        split
        · exact hdisposed
        · exact hdisposed.trans (undrained_release _ x)

theorem cancelTimerDetach_undrained (h : Inv w) (x : Nat) :
    Undrained w (w.cancelTimerDetach x).2 := by
  unfold cancelTimerDetach
  split
  · exact undrained_record w (by simp)
  · cases hp : w.timerMap x with
    | none =>
        dsimp only
        split
        · have hmark : Undrained w (w.markDetached x) := ⟨rfl, fun _ _ _ hmem => hmem⟩
          exact (hmark.trans (undrained_record _ (by simp))).trans (undrained_release _ x)
        · exact undrained_record w (by simp)
    | some p =>
        dsimp only
        rw [if_pos (h.active_of_mapped hp)]
        exact (undrained_unlink h hp (by simp)).trans (undrained_release _ x)

theorem applyRemove_undrained (h : Inv w) (x : Nat) : Undrained w (w.applyRemove x) := by
  unfold applyRemove
  cases hp : w.timerMap x with
  | none =>
      dsimp only
      split
      · have hmark : Undrained w (w.markCancelled x) := ⟨rfl, fun _ _ _ hmem => hmem⟩
        exact hmark.trans (undrained_record _ (by simp))
      · exact ⟨rfl, fun _ _ _ hmem => hmem⟩
  | some p =>
      dsimp only
      rw [if_pos (h.active_of_mapped hp)]
      exact (undrained_unlink h hp (by simp)).trans (undrained_dispose _ p)

theorem applyDone_undrained (w : TimerWheel) (x : Nat) (done : Option (Nat × Nat)) :
    Undrained w (w.applyDone x done) := by
  obtain ⟨-, plain, released, hplain, hbooks⟩ := applyDone_fields w x done
  have hlog : (w.applyDone x done).log = plain ++ w.log := congrArg Books.log hbooks
  refine ⟨congrArg Books.timerOperationsQueue hbooks, fun id e c hmem => ?_⟩
  rw [hlog] at hmem
  exact (List.mem_append.mp hmem).resolve_left fun hin => hplain _ hin

theorem addTimer_queue (clock : Clock) (w : TimerWheel) (p : Ptr) (t : Timer) :
    ((w.arm p t).addTimer clock p).2.timerOperationsQueue =
      w.timerOperationsQueue ++ [.add p (w.timerIdCounter + 1)] := by
  simp only [addTimer, issue, enqueueOp, record, modifyTimer, touch, arm, afterReading]

theorem addTimer_log (clock : Clock) (w : TimerWheel) (p : Ptr) (t : Timer) :
    ((w.arm p t).addTimer clock p).2.log =
      .added (w.timerIdCounter + 1) p ((w.arm p t).mem p).payload :: w.log := by
  simp only [addTimer, issue, enqueueOp, record, modifyTimer, touch, arm, afterReading]

theorem addTimer_expiry (clock : Clock) (w : TimerWheel) (p : Ptr) (t : Timer) :
    (((w.arm p t).addTimer clock p).2.mem p).expiryTime =
      (w.now clock + t.durationMs) % 2 ^ 64 := by
  simp only [addTimer, issue, enqueueOp, record, modifyTimer, touch, arm, afterReading, now,
    Function.update_self]

theorem rearm_log (h : Inv w) {x : Nat} (hp : w.timerMap x = some p) (newDur e : Nat) :
    ((w.touch p).rearm x p newDur e).log = .drained x e w.currentTime :: w.log :=
  congrArg Books.log (rearm_books h hp newDur e)

/-- Of the queued operations only an `UPDATE` of the id can drain it with another expiry. -/
theorem applyOp_drained (hs : Scheduled id expiry w) (h : Inv w) {op : Op} {rest : List Op}
    (head : w.timerOperationsQueue = op :: rest) (hop : ∀ newDur, op ≠ .update id newDur)
    (hmem : Event.drained id e c ∈ ({ w with timerOperationsQueue := rest }.applyOp clock op).log) :
    e = expiry := by
  cases op with
  | add p x =>
      have hq : Op.add p x ∈ w.timerOperationsQueue := by rw [head]; exact List.mem_cons_self
      unfold applyOp applyAdd at hmem
      dsimp only at hmem
      split at hmem
      · exact hs.drained e c hmem
      · next hdetached =>
          split at hmem
          · have hold := (undrained_dispose _ p).drained id e c hmem
            exact hs.drained e c hold
          · next hcancelled =>
              rcases List.mem_cons.mp hmem with heq | hold
              · obtain ⟨hid, hexpiry, -⟩ := Event.drained.inj heq
                have hself : (w.mem p).id = x := (h.live p x hq hcancelled hdetached).1
                have hx : id = x := hid.trans hself
                rw [← hx] at hq hdetached hcancelled
                rw [hexpiry]
                exact ((hs.queued p hq).resolve_left hdetached).resolve_left hcancelled
              · exact hs.drained e c hold
  | update x newDur =>
      have hpop : Effect Policy.any w { w with timerOperationsQueue := rest } :=
        pop_effect head (by simp)
      have h₁ := h.effect hpop
      unfold applyOp applyUpdate at hmem
      cases hp : w.timerMap x with
      | none =>
          dsimp only at hmem
          rw [hp] at hmem
          exact hs.drained e c hmem
      | some p =>
          dsimp only at hmem
          rw [hp] at hmem
          dsimp only at hmem
          rw [if_pos (h.active_of_mapped hp)] at hmem
          generalize (now clock { w with timerOperationsQueue := rest } + newDur) % 2 ^ 64 = e'
            at hmem
          rw [rearm_log h₁ hp newDur e'] at hmem
          rcases List.mem_cons.mp hmem with heq | hold
          · obtain ⟨hid, -, -⟩ := Event.drained.inj heq
            exact absurd (by rw [hid]) (hop newDur)
          · exact hs.drained e c hold
  | remove x done =>
      have hpop : Effect Policy.any w { w with timerOperationsQueue := rest } :=
        pop_effect head (by simp)
      have h₁ := h.effect hpop
      have hquiet := (applyRemove_undrained h₁ x).trans (applyDone_undrained _ x done)
      exact hs.drained e c (hquiet.drained id e c hmem)

def Untouched (id : Nat) (ops : List Op) : Prop := ∀ newDur, Op.update id newDur ∉ ops

theorem drainLoop_scheduled (ops : List Op) :
    ∀ {w : TimerWheel}, Inv w → w.timerOperationsQueue = ops → Untouched id ops →
      Scheduled id expiry w → Scheduled id expiry (drainLoop clock ops w) ∧
        (drainLoop clock ops w).timerOperationsQueue = [] := by
  induction ops with
  | nil => exact fun _ hqueue _ hs => ⟨hs, hqueue⟩
  | cons op ops ih =>
      intro w h hqueue huntouched hs
      obtain ⟨heffs, hrest⟩ := applyOp_effects Policy.any clock h hqueue
      have hop : ∀ newDur, op ≠ .update id newDur := by
        rintro newDur rfl
        exact huntouched newDur List.mem_cons_self
      have hs₁ := hs.effects h heffs fun e c => applyOp_drained hs h hqueue hop
      exact ih (h.effects heffs) hrest
        (fun newDur hmem => huntouched newDur (List.mem_cons_of_mem _ hmem)) hs₁

end Draining

/-! ## Runs that leave the timer alone -/

inductive Follows (clock : Clock) (id : Nat) (w : TimerWheel) : TimerWheel → Prop where
  | refl : Follows clock id w w
  | step {w₁ w₂ : TimerWheel} {call : Call} {fuel : Nat} (before : Follows clock id w w₁)
      (ok : call.Ok Policy.any w₁) (other : ∀ newDur, call ≠ .updateTimer id newDur)
      (hrun : call.exec clock fuel w₁ = some w₂) : Follows clock id w w₂

section Follows

variable {clock : Clock} {w w' : TimerWheel} {p : Ptr} {id expiry : Nat}

theorem tick_scheduled (h : Inv w) {fuel : Nat} (hs : Scheduled id expiry w)
    (huntouched : Untouched id w.timerOperationsQueue) (hrun : w.tick clock fuel = some w') :
    Scheduled id expiry w' ∧ Untouched id w'.timerOperationsQueue := by
  have hdrained : Scheduled id expiry (w.drainOps clock) ∧
      (w.drainOps clock).timerOperationsQueue = [] := drainLoop_scheduled _ h rfl huntouched hs
  obtain ⟨hs₁, hempty⟩ := hdrained
  obtain ⟨-, hdrained, hqueue⟩ := tick_drained h hrun
  have hrest : Effects Policy.any (w.drainOps clock) w' := tick_rest_effects trivial clock h hrun
  have hdrain : Effects Policy.any w (w.drainOps clock) := drainOps_effects clock h
  refine ⟨hs₁.effects (h.effects hdrain) hrest fun e c hmem =>
    hs₁.drained e c (hdrained id e c hmem), ?_⟩
  rw [hqueue, hempty]
  exact fun _ => List.not_mem_nil

theorem Untouched.append {ops : List Op} {op : Op} (h : Untouched id ops)
    (hop : ∀ newDur, op ≠ .update id newDur) : Untouched id (ops ++ [op]) := by
  intro newDur hmem
  rcases List.mem_append.mp hmem with hold | hnew
  · exact h newDur hold
  · exact hop newDur (List.mem_singleton.mp hnew).symm

/-- A call that does not update the id leaves its timer scheduled. -/
theorem Call.scheduled (h : Inv w) {call : Call} {fuel : Nat} (ok : call.Ok Policy.any w)
    (other : ∀ newDur, call ≠ .updateTimer id newDur) (hs : Scheduled id expiry w)
    (huntouched : Untouched id w.timerOperationsQueue) (hrun : call.exec clock fuel w = some w') :
    Scheduled id expiry w' ∧ Untouched id w'.timerOperationsQueue := by
  have heffs : Effects Policy.any w w' := Call.exec_effects h ok (.inl trivial) hrun
  cases call with
  | tick => exact tick_scheduled h hs huntouched hrun
  | addTimer q t =>
      obtain rfl := Option.some.inj hrun
      rw [addTimer_queue]
      refine ⟨hs.effects h heffs fun e c hmem => ?_, huntouched.append (by simp)⟩
      rw [addTimer_log] at hmem
      rcases List.mem_cons.mp hmem with heq | hold
      · cases heq
      · exact hs.drained e c hold
  | updateTimer x newDur =>
      obtain rfl := Option.some.inj hrun
      refine ⟨hs.effects h heffs hs.drained, huntouched.append fun d heq => ?_⟩
      obtain ⟨rfl, rfl⟩ := Op.update.inj heq
      exact other newDur rfl
  | removeTimer x done =>
      obtain rfl := Option.some.inj hrun
      exact ⟨hs.effects h heffs hs.drained, huntouched.append (by simp)⟩
  | cancelTimer x =>
      obtain rfl := Option.some.inj hrun
      have hquiet := cancelTimer_undrained h x
      rw [hquiet.queue]
      exact ⟨hs.effects h heffs fun e c hmem => hs.drained e c (hquiet.drained id e c hmem),
        huntouched⟩
  | cancelTimerDetach x =>
      obtain rfl := Option.some.inj hrun
      have hquiet := cancelTimerDetach_undrained h x
      rw [hquiet.queue]
      exact ⟨hs.effects h heffs fun e c hmem => hs.drained e c (hquiet.drained id e c hmem),
        huntouched⟩
  | getNextTimeout =>
      obtain rfl := Option.some.inj hrun
      exact ⟨hs.effects h heffs hs.drained, huntouched⟩

theorem Follows.scheduled (h : Inv w) (hs : Scheduled id expiry w)
    (huntouched : Untouched id w.timerOperationsQueue) (hrun : Follows clock id w w') :
    Inv w' ∧ Scheduled id expiry w' ∧ Untouched id w'.timerOperationsQueue := by
  induction hrun with
  | refl => exact ⟨h, hs, huntouched⟩
  | step _ ok other hrun ih =>
      obtain ⟨h₁, hs₁, huntouched₁⟩ := ih
      have heffs : Effects Policy.any _ _ := Call.exec_effects h₁ ok (.inl trivial) hrun
      exact ⟨h₁.effects heffs, Call.scheduled h₁ ok other hs₁ huntouched₁ hrun⟩

theorem Reachable.numbered (h : Reachable Policy.any clock w) : Numbered w :=
  h.induct trivial (numbered_new clock) fun hinv hn heff => hn.effect hinv heff

theorem scheduled_addTimer (h : Reachable Policy.any clock w) (t : Timer) :
    Scheduled (w.timerIdCounter + 1) ((w.now clock + t.durationMs) % 2 ^ 64)
      ((w.arm p t).addTimer clock p).2 := by
  have hinv : Inv w := h.inv trivial
  have hfresh : ∀ x, x ≤ w.timerIdCounter → x ≠ w.timerIdCounter + 1 := fun x hx => by omega
  refine ⟨le_rfl, fun q hq => ?_, fun q hq => ?_, fun e c hmem => ?_, fun τ pl hmem => ?_⟩
  · rw [addTimer_queue] at hq
    rcases List.mem_append.mp hq with hold | hnew
    · exact absurd rfl (hfresh _ (hinv.queued_bounds hold).2)
    · rw [(Op.add.inj (List.mem_singleton.mp hnew)).1]
      exact .inr (.inr (addTimer_expiry clock w p t))
  · have hmapped : w.timerMap (w.timerIdCounter + 1) = some q := hq
    exact absurd rfl (hfresh _ (hinv.id_le hmapped))
  · rw [addTimer_log] at hmem
    rcases List.mem_cons.mp hmem with heq | hold
    · cases heq
    · exact absurd rfl (hfresh _ (h.numbered _ (.inr ⟨e, c, hold⟩)))
  · rw [addTimer_log] at hmem
    rcases List.mem_cons.mp hmem with heq | hold
    · cases heq
    · exact absurd rfl (hfresh _ (h.numbered _ (.inl ⟨τ, pl, hold⟩)))

end Follows

/-! ## Sleeps -/

def IsSleep (d : Nat) (t : Timer) : Prop :=
  (∃ coro, t = sleepForTimer d coro) ∨ ∃ fn arg, t = sleepOpTimer d fn arg

/-- **Short sleeps.**  The expiry of a sleep that starts at `start` is never reached before
`start + d` exactly when the fractions of a millisecond of `start` and `d` add up to at most
one.  In every run that does not update its timer, the sleep fires at no wheel time before that
expiry, and so, when the fractions are such, at no instant before `start + d`. -/
theorem sleep_never_short_iff {steady : SteadyClock} {w : TimerWheel}
    (h : Reachable Policy.any steady.toClock w) {p : Ptr} {t : Timer} {d : Nat}
    (hsleep : IsSleep d t) (hd : d + nanosPerMilli < 2 ^ 63) (ok : AddOk w p t)
    (huntouched : Untouched (w.timerIdCounter + 1) w.timerOperationsQueue) :
    (NeverShort (steady.instant w.reads) d
        (((w.arm p t).addTimer steady.toClock p).2.mem p).expiryTime ↔
      steady.instant w.reads % nanosPerMilli + d % nanosPerMilli ≤ nanosPerMilli) ∧
    ∀ w', Follows steady.toClock (w.timerIdCounter + 1)
        ((w.arm p t).addTimer steady.toClock p).2 w' →
      ∀ τ pl, Event.fired (w.timerIdCounter + 1) τ pl ∈ w'.log →
        (((w.arm p t).addTimer steady.toClock p).2.mem p).expiryTime ≤ τ ∧
        (steady.instant w.reads % nanosPerMilli + d % nanosPerMilli ≤ nanosPerMilli →
          ∀ instant, τ ≤ getCurrentTime instant → steady.instant w.reads + d ≤ instant) := by
  have hduration : t.durationMs = sleepMillis d := by
    rcases hsleep with ⟨coro, rfl⟩ | ⟨fn, arg, rfl⟩ <;> rfl
  have hbound : w.now steady.toClock + t.durationMs < 2 ^ 64 := by
    have hstart := steady.lt w.reads
    have hnow : getCurrentTime (steady.instant w.reads) ≤ steady.instant w.reads :=
      Nat.div_le_self _ _
    have hmillis : d / nanosPerMilli ≤ d := Nat.div_le_self _ _
    have hunit : nanosPerMilli = 1000000 := rfl
    change getCurrentTime (steady.instant w.reads) + t.durationMs < 2 ^ 64
    rw [hduration, sleepMillis_eq]
    omega
  have hexpiry : (((w.arm p t).addTimer steady.toClock p).2.mem p).expiryTime =
      getCurrentTime (steady.instant w.reads) + sleepMillis d := by
    rw [addTimer_expiry, Nat.mod_eq_of_lt hbound, hduration]
    rfl
  rw [hexpiry]
  refine ⟨neverShort_iff, fun w' hrun τ pl hfired => ?_⟩
  have hscheduled : Scheduled (w.timerIdCounter + 1)
      (getCurrentTime (steady.instant w.reads) + sleepMillis d)
      ((w.arm p t).addTimer steady.toClock p).2 := by
    have hs := scheduled_addTimer (p := p) h t
    rwa [Nat.mod_eq_of_lt hbound, hduration] at hs
  have hadded : Inv ((w.arm p t).addTimer steady.toClock p).2 := by
    have hadd : Effect Policy.any w ((w.arm p t).addTimer steady.toClock p).2 :=
      addTimer_effect steady.toClock ok
    exact (h.inv trivial).effect hadd
  have hqueued : Untouched (w.timerIdCounter + 1)
      ((w.arm p t).addTimer steady.toClock p).2.timerOperationsQueue := by
    rw [addTimer_queue]
    exact huntouched.append (by simp)
  have hlater := hrun.scheduled hadded hscheduled hqueued
  have hreached := hlater.2.1.fired τ pl hfired
  exact ⟨hreached, fun hfractions instant hinstant =>
    neverShort_iff.mpr hfractions instant (hreached.trans hinstant)⟩

/-- The clock stands at 0.9 ms while the sleep is armed and at 1 ms at the next tick. -/
def earlyClock : SteadyClock where
  instant i := if i ≤ 1 then 900000 else 1000000
  monotone := advance_monotone (by decide)
  lt := advance_lt (by decide) (by decide)

theorem addOk_new (clock : Clock) {t : Timer} (harmed : t.active = true) :
    AddOk (TimerWheel.new clock) 0 t :=
  ⟨harmed, fun _ => by simp [TimerWheel.new], fun _ hmem => by simp [TimerWheel.new] at hmem⟩

/-- A sleep of two whole milliseconds. -/
theorem twoMillis_never_short :
    NeverShort (earlyClock.instant (TimerWheel.new earlyClock.toClock).reads) 2000000
      ((((TimerWheel.new earlyClock.toClock).arm 0 (sleepForTimer 2000000 5)).addTimer
        earlyClock.toClock 0).2.mem 0).expiryTime := by
  have hnew : Reachable Policy.any earlyClock.toClock (TimerWheel.new earlyClock.toClock) := .start
  have hsleep : IsSleep 2000000 (sleepForTimer 2000000 5) := .inl ⟨5, rfl⟩
  have hsmall : 2000000 + nanosPerMilli < 2 ^ 63 := by decide
  have hnone : Untouched ((TimerWheel.new earlyClock.toClock).timerIdCounter + 1)
      (TimerWheel.new earlyClock.toClock).timerOperationsQueue := fun _ => List.not_mem_nil
  have hfractions : earlyClock.instant (TimerWheel.new earlyClock.toClock).reads % nanosPerMilli +
      2000000 % nanosPerMilli ≤ nanosPerMilli := by decide
  exact (sleep_never_short_iff hnew hsleep hsmall (addOk_new earlyClock.toClock rfl)
    hnone).1.mpr hfractions

def earlyAdded : TimerWheel :=
  (((TimerWheel.new earlyClock.toClock).arm 0 (sleepForTimer 900000 5)).addTimer
    earlyClock.toClock 0).2

def earlyRun : TimerWheel := (earlyAdded.tick earlyClock.toClock 3).getD earlyAdded

/-- A sleep of 0.9 ms that starts at 0.9 ms fires at 1 ms. -/
theorem earlyRun_short :
    Reachable Policy.any earlyClock.toClock earlyRun ∧
      Event.fired 1 1 (.coroutine 5) ∈ earlyRun.log ∧
      ∀ i < earlyRun.reads, earlyClock.instant i < 900000 + 900000 := by
  refine ⟨?_, by decide, fun i _ => ?_⟩
  · have hissue : (Call.addTimer 0 (sleepForTimer 900000 5)).exec earlyClock.toClock 0
        (TimerWheel.new earlyClock.toClock) = some earlyAdded := rfl
    have hadd : Call.Ok Policy.any (TimerWheel.new earlyClock.toClock)
        (.addTimer 0 (sleepForTimer 900000 5)) := addOk_new earlyClock.toClock rfl
    have hsome : (earlyAdded.tick earlyClock.toClock 3).isSome = true := by decide
    obtain ⟨w, hw⟩ := Option.isSome_iff_exists.mp hsome
    have hrun : Call.tick.exec earlyClock.toClock 3 earlyAdded = some earlyRun := by
      rw [earlyRun, Call.exec, hw, Option.getD_some]
    have hok : Call.tick.Ok Policy.any earlyAdded := trivial
    exact .step (.step .start hadd hissue) hok hrun
  · change (if i ≤ 1 then 900000 else 1000000) < _
    split_ifs <;> decide

end Uvent.Timers
