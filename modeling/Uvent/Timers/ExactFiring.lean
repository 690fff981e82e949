import Uvent.Timers.Sweep
import Uvent.Timers.Payloads
import Uvent.Timers.HandedOver

/-!
# Every timer fires exactly at its due time

The log of a run shows, for every timer that was drained and not updated, removed
or cancelled since, either no firing because the wheel has not come to its due
time, or the one firing at that time.  What is in `fired_raw_` and in the run queue
is what the firings handed over.
-/

namespace Uvent.Timers

open TimerWheel Relation

/-! ## More fuel -/

section Fuel

variable {fuel fuel' : Nat}

theorem processSlot_mono {level slot : Nat} (fuel : Nat) :
    ∀ {w w' : TimerWheel} {fuel' : Nat}, fuel ≤ fuel' →
      processSlot level slot fuel w = some w' → processSlot level slot fuel' w = some w' := by
  induction fuel with
  | zero => intro w w' fuel' _ hrun; cases hrun
  | succ fuel ih =>
      intro w w' fuel' hle hrun
      obtain ⟨fuel', rfl⟩ : ∃ f, fuel' = f + 1 := ⟨fuel' - 1, by omega⟩
      rw [processSlot] at hrun ⊢
      cases hbucket : w.buckets level slot with
      | nil => rw [hbucket] at hrun; exact hrun
      | cons p tail =>
          rw [hbucket] at hrun
          exact ih (by omega) hrun

theorem cascade_mono (hle : fuel ≤ fuel') (level : Nat) :
    ∀ {w w' : TimerWheel}, cascade fuel level w = some w' → cascade fuel' level w = some w' := by
  induction level with
  | zero => intro w w' hrun; exact hrun
  | succ level ih =>
      intro w w' hrun
      rw [cascade] at hrun ⊢
      split at hrun
      · next hmod => rw [if_pos hmod]; exact ih hrun
      · next hmod =>
          rw [if_neg hmod]
          cases hslot : processSlot (level + 1)
              (w.currentTime / interval (level + 1) % slots) fuel w with
          | none => rw [hslot] at hrun; cases hrun
          | some w₁ =>
              rw [hslot] at hrun
              rw [processSlot_mono fuel hle hslot]
              exact ih hrun

theorem advance_mono (hle : fuel ≤ fuel') {w w' : TimerWheel} (hrun : advance fuel w = some w') :
    advance fuel' w = some w' := by
  unfold advance at hrun ⊢
  cases hcas : cascade fuel (twLevels - 1) { w with currentTime := w.currentTime + 1 } with
  | none => rw [hcas] at hrun; cases hrun
  | some w₁ =>
      rw [hcas] at hrun
      rw [cascade_mono hle _ hcas]
      exact processSlot_mono fuel hle hrun

theorem advanceBy_mono (hle : fuel ≤ fuel') (rounds : Nat) :
    ∀ {w w' : TimerWheel}, advanceBy fuel rounds w = some w' →
      advanceBy fuel' rounds w = some w' := by
  induction rounds with
  | zero => intro w w' hrun; exact hrun
  | succ rounds ih =>
      intro w w' hrun
      rw [advanceBy] at hrun ⊢
      cases hadv : advance fuel w with
      | none => rw [hadv] at hrun; cases hrun
      | some w₁ =>
          rw [hadv] at hrun
          rw [advance_mono hle hadv]
          exact ih hrun

theorem tick_mono (hle : fuel ≤ fuel') {clock : Clock} {w w' : TimerWheel}
    (hrun : w.tick clock fuel = some w') : w.tick clock fuel' = some w' := by
  unfold tick at hrun ⊢
  dsimp only at hrun ⊢
  split at hrun
  · next hnow => rw [if_pos hnow]; exact hrun
  · next hnow =>
      rw [if_neg hnow]
      split at hrun
      · cases hrun
      · next w₁ hadv => rw [advanceBy_mono hle _ hadv]; exact hrun

end Fuel

/-! ## Ticks and runs -/

section Runs

variable {policy : Policy} {clock : Clock} {w w' : TimerWheel}

theorem Timely.refreshNextExpiry {n : Nat} (ht : Timely n w) (h : Inv w) :
    Timely n w.refreshNextExpiry := by
  obtain ⟨hb, hm, hbooks, -⟩ := refreshMinimum_same w
  have hlog : w.refreshNextExpiry.log = w.log := congrArg Books.log hbooks
  have hcur : w.refreshNextExpiry.currentTime = w.currentTime := congrArg Books.currentTime hbooks
  refine ht.of_same h hb (fun q _ => congrFun hm q) (congrArg Books.timerMap hbooks) hcur.ge ?_
  intro id
  rw [hlog]
  exact .inl rfl

theorem foldl_callRaw_same (calls : List (Nat × Nat)) :
    ∀ w : TimerWheel, (calls.foldl callRaw w).buckets = w.buckets ∧
      (calls.foldl callRaw w).mem = w.mem ∧ (calls.foldl callRaw w).timerMap = w.timerMap ∧
      (calls.foldl callRaw w).currentTime = w.currentTime ∧
      ∀ id, account id (calls.foldl callRaw w).log = account id w.log := by
  induction calls with
  | nil => intro w; exact ⟨rfl, rfl, rfl, rfl, fun _ => rfl⟩
  | cons c calls ih =>
      intro w
      obtain ⟨hb, hm, hmap, hcur, hacc⟩ := ih (w.callRaw c)
      exact ⟨hb, hm, hmap, hcur, hacc⟩

theorem Timely.runFired {n : Nat} (ht : Timely n w) (h : Inv w) : Timely n w.runFired := by
  obtain ⟨hb, hm, hmap, hcur, hacc⟩ := foldl_callRaw_same w.firedRaw w
  exact ht.of_same h hb (fun q _ => congrFun hm q) hmap hcur.ge fun id => .inl (hacc id)

/-- With every drained timer in span, `tick` returns and keeps the schedule. -/
theorem tick_timely (clock : Clock) (h : Inv w) (ht : Timely (w.currentTime + 1) w)
    (hspan : InSpan (w.drainOps clock).log) :
    ∃ enough w', (∀ fuel ≥ enough, w.tick clock fuel = some w') ∧
      Timely (w'.currentTime + 1) w' := by
  have hdrain : Effects Policy.any.idle w (w.drainOps clock).afterReading :=
    (drainOps_effects clock h).tail (afterReading_effect _)
  have hidle : ¬Policy.any.idle.advancing := fun hfalse => hfalse
  have hinv := h.effects hdrain
  obtain ⟨ht₁, -⟩ := ht.effects hidle h hdrain hspan
  by_cases hnow : (w.drainOps clock).now clock ≤ (w.drainOps clock).currentTime
  · refine ⟨0, (w.drainOps clock).afterReading.refreshNextExpiry, ?_, ?_⟩
    · intro fuel _
      unfold tick
      dsimp only
      rw [if_pos hnow]
    · have hcur : (w.drainOps clock).afterReading.refreshNextExpiry.currentTime =
          (w.drainOps clock).afterReading.currentTime :=
        congrArg Books.currentTime (refreshMinimum_same _).2.2.1
      rw [hcur]
      exact ht₁.refreshNextExpiry hinv
  · obtain ⟨enough, w₁, hrun, h₁, ht', -⟩ := advanceBy_timely
      ((w.drainOps clock).now clock - (w.drainOps clock).currentTime) hinv ht₁ hspan
    refine ⟨enough, w₁.refreshNextExpiry.runFired, ?_, ?_⟩
    · intro fuel hfuel
      unfold tick
      dsimp only
      rw [if_neg hnow, hrun fuel hfuel]
    · have hrefresh : Effect Policy.any w₁ w₁.refreshNextExpiry := refreshNextExpiry_effect _
      have hcur₁ : w₁.refreshNextExpiry.currentTime = w₁.currentTime :=
        congrArg Books.currentTime (refreshMinimum_same w₁).2.2.1
      have hcur₂ : w₁.refreshNextExpiry.runFired.currentTime = w₁.refreshNextExpiry.currentTime :=
        (foldl_callRaw_same _ _).2.2.2.1
      rw [hcur₂, hcur₁]
      exact (ht'.refreshNextExpiry h₁).runFired (h₁.effect hrefresh)

theorem timely_new (clock : Clock) :
    Timely ((TimerWheel.new clock).currentTime + 1) (TimerWheel.new clock) := by
  refine ⟨?_, ?_, ?_⟩
  · intro level slot p hp
    cases hp
  · intro id p hp
    cases hp
  · intro id e c ts hac
    cases hac

theorem Reachable.timely (h : Reachable Policy.any clock w) (hspan : InSpan w.log) :
    Timely (w.currentTime + 1) w := by
  have hidle : ¬Policy.any.idle.advancing := fun hfalse => hfalse
  induction h with
  | start => exact timely_new clock
  | @step w w' call fuel hw ok hrun ih =>
      have hinv := hw.inv trivial
      obtain ⟨l, hl⟩ := (Call.exec_effects hinv ok (.inl trivial) hrun).log_eq
      have ht := ih (InSpan.of_append (hl ▸ hspan))
      by_cases htick : call = .tick
      · subst htick
        -- the fuel of this call and the fuel that is always enough give the same wheel
        have hrest : Effects Policy.any (w.drainOps clock) w' :=
          tick_rest_effects trivial clock hinv hrun
        obtain ⟨l', hl'⟩ := hrest.log_eq
        obtain ⟨enough, w₁, htot, ht₁⟩ := tick_timely clock hinv ht
          (InSpan.of_append (hl' ▸ hspan))
        have hmono := tick_mono (le_max_left fuel enough) hrun
        have heq := htot (max fuel enough) (le_max_right _ _)
        rw [hmono] at heq
        rw [Option.some.inj heq]
        exact ht₁
      · have heffs : Effects Policy.any.idle w w' := by
          apply Call.exec_effects hinv _ (.inr htick) hrun
          cases call <;> exact ok
        exact (ht.effects hidle hinv heffs hspan).1

end Runs

/-! ## The log -/

def firings (id : Nat) (log : List Event) : List Nat :=
  log.filterMap fun e => match e with
    | .fired x t _ => if x = id then some t else none
    | _ => none

def Undisturbed (id : Nat) (log : List Event) : Prop :=
  ∀ e ∈ log, (∀ x c, e ≠ .drained id x c) ∧ e ≠ .removed id ∧ e ≠ .cancelled id

theorem account_of_undisturbed {id e c : Nat} {pre : List Event} (post : List Event)
    (h : Undisturbed id post) :
    account id (post ++ .drained id e c :: pre) = some (e, c, firings id post) := by
  induction post with
  | nil => rw [List.nil_append, account, if_pos rfl]; rfl
  | cons event post ih =>
      have ih := ih fun e' he' => h e' (List.mem_cons_of_mem _ he')
      obtain ⟨hdrained, hremoved, hcancelled⟩ := h event List.mem_cons_self
      rw [List.cons_append]
      cases event with
      | drained x e' c' =>
          have hx : x ≠ id := fun hx => hdrained e' c' (by rw [hx])
          rw [account, if_neg hx]
          exact ih
      | fired x t pl =>
          by_cases hx : x = id
          · rw [account, if_pos hx, ih]
            simp [firings, hx]
          · rw [account, if_neg hx, ih]
            simp [firings, hx]
      | removed x =>
          have hx : x ≠ id := fun hx => hremoved (by rw [hx])
          rw [account, if_neg hx]
          exact ih
      | cancelled x =>
          have hx : x ≠ id := fun hx => hcancelled (by rw [hx])
          rw [account, if_neg hx]
          exact ih
      | added x p pl => exact ih
      | refused x => exact ih
      | destroyed x => exact ih
      | deleted x => exact ih
      | called fn arg => exact ih

/-! ## Exact firing -/

/-- The log since a timer was drained holds its one firing at `max e (c + 1)`, or
none while the wheel has not come there. -/
def FiredWhenDue (w : TimerWheel) : Prop :=
  ∀ post pre id e c, w.log = post ++ .drained id e c :: pre → Undisturbed id post →
    firings id post = if max e (c + 1) ≤ w.currentTime then [max e (c + 1)] else []

theorem Timely.firedWhenDue {w : TimerWheel} (ht : Timely (w.currentTime + 1) w) :
    FiredWhenDue w := by
  intro post pre id e c hlog hpost
  have hacc : account id w.log = some (e, c, firings id post) := by
    rw [hlog]
    exact account_of_undisturbed post hpost
  cases hmap : w.timerMap id with
  | none =>
      obtain ⟨hfirings, hle⟩ := ht.done id e c _ hacc hmap
      rw [hfirings, if_pos hle]
  | some p =>
      obtain ⟨c', hacc', -, hlater⟩ := ht.armed id p hmap
      rw [hacc] at hacc'
      obtain ⟨rfl, rfl, hfirings⟩ :
          e = (w.mem p).expiryTime ∧ c = c' ∧ firings id post = [] := by simpa using hacc'
      rw [hfirings, if_neg (by omega)]

/-- Inside a tick, behind any number of rounds of `advance`. -/
theorem advanceBy_fires {clock : Clock} {w w' : TimerWheel} {fuel rounds : Nat}
    (h : Reachable Policy.any clock w) (hspan : InSpan (w.drainOps clock).log)
    (hrun : advanceBy fuel rounds (w.drainOps clock).afterReading = some w') :
    w'.currentTime = w.currentTime + rounds ∧ FiredWhenDue w' := by
  have hinv : Inv w := h.inv trivial
  have hidle : ¬Policy.any.idle.advancing := fun hfalse => hfalse
  have hdrain : Effects Policy.any.idle w (w.drainOps clock).afterReading :=
    (drainOps_effects clock hinv).tail (afterReading_effect _)
  obtain ⟨l, hl⟩ := hdrain.log_eq
  have hbefore : InSpan w.log := InSpan.of_append (hl ▸ hspan)
  obtain ⟨ht, hcur⟩ := (h.timely hbefore).effects hidle hinv hdrain hspan
  obtain ⟨enough, w₁, htot, -, ht₁, -, hcur₁⟩ :=
    advanceBy_timely rounds (hinv.effects hdrain) ht hspan
  -- the fuel of this run and the fuel that is always enough give the same wheel
  have hmono := advanceBy_mono (le_max_left fuel enough) rounds hrun
  rw [htot (max fuel enough) (le_max_right _ _)] at hmono
  obtain rfl := Option.some.inj hmono
  exact ⟨by omega, ht₁.firedWhenDue⟩

/-- **Exact firing.**  In every run in which each timer is drained less than
`2^32` before its expiry `e`, at wheel time `c`, a timer that is not disturbed
since fires once the wheel is at `max e (c + 1)`, at that time and only then, with
the payload it was added with.  `tick` always returns, and behind each of its rounds
`fired_raw_` and the run queue have got the payloads of what fired, each once; the
callbacks in `fired_raw_` are called at its end. -/
theorem fires_exactly {clock : Clock} {w : TimerWheel} (h : Reachable Policy.any clock w)
    (hspan : InSpan w.log) :
    FiredWhenDue w ∧ HandedAll w ∧
    (∀ id t pl, Event.fired id t pl ∈ w.log → ∃ p, Event.added id p pl ∈ w.log) ∧
    (∀ fuel w', w.tick clock fuel = some w' → ∃ l, w'.log = calls (raws l) ++ l ++ w.log ∧
      w'.runQueue = w.runQueue ++ handles l) ∧
    (InSpan (w.drainOps clock).log →
      (∃ enough w', ∀ fuel ≥ enough, w.tick clock fuel = some w') ∧
      ∀ fuel rounds w', advanceBy fuel rounds (w.drainOps clock).afterReading = some w' →
        w'.currentTime = w.currentTime + rounds ∧ FiredWhenDue w' ∧ ∃ l, HandsOver w l w') := by
  have hsigned : Signed w :=
    h.induct trivial (signed_new clock) fun hinv hs heff => hs.effect hinv heff
  refine ⟨(h.timely hspan).firedWhenDue, h.handedAll, hsigned.fired, ?_, fun hdrain => ⟨?_, ?_⟩⟩
  · exact fun fuel w' hrun => (h.handedAll.tick hrun).2
  · obtain ⟨enough, w', hrun, -⟩ := tick_timely clock (h.inv trivial) (h.timely hspan) hdrain
    exact ⟨enough, w', hrun⟩
  · intro fuel rounds w' hrun
    obtain ⟨hcur, hfired⟩ := advanceBy_fires h hdrain hrun
    exact ⟨hcur, hfired, handsOver_advanceBy hrun⟩

def mixedRun : TimerWheel := ((mixedWheel 3).tick mixedClock 4).getD (mixedWheel 3)

theorem mixedRun_tick : (mixedWheel 3).tick mixedClock 4 = some mixedRun := by
  have hsome : ((mixedWheel 3).tick mixedClock 4).isSome = true := by decide +kernel
  obtain ⟨w, hw⟩ := Option.isSome_iff_exists.mp hsome
  rw [mixedRun, hw, Option.getD_some]

theorem mixedRun_reachable : Reachable Policy.any mixedClock mixedRun := by
  have hok : Call.tick.Ok Policy.any (mixedWheel 3) := trivial
  have hexec : Call.tick.exec mixedClock 4 (mixedWheel 3) = some mixedRun := mixedRun_tick
  exact .step mixedWheel_reachable hok hexec

theorem mixedRun_log : mixedRun.log =
    [.called 7 9, .deleted 1, .fired 2 3 (.coroutine 5), .deleted 0, .fired 1 2 (.raw 7 9),
      .drained 3 300 0, .drained 2 3 0, .drained 1 2 0,
      .added 3 2 (.raw 8 1), .added 2 1 (.coroutine 5), .added 1 0 (.raw 7 9)] := by
  decide +kernel

theorem mixedRun_inSpan : InSpan mixedRun.log := by
  intro id e c hmem
  rw [mixedRun_log] at hmem
  simp at hmem
  omega

theorem mixedRun_fires :
    firings 2 [.called 7 9, .deleted 1, .fired 2 3 (.coroutine 5), .deleted 0,
      .fired 1 2 (.raw 7 9), .drained 3 300 0] = [max 3 (0 + 1)] ∧
    mixedRun.runQueue = [5] ∧
    (∃ l, mixedRun.log = calls (raws l) ++ l ++ (mixedWheel 3).log) ∧
    ∃ w', advanceBy 4 2 ((mixedWheel 3).drainOps mixedClock).afterReading = some w' ∧
      FiredWhenDue w' ∧ ∃ l, HandsOver (mixedWheel 3) l w' := by
  have hpost : Undisturbed 2 [.called 7 9, .deleted 1, .fired 2 3 (.coroutine 5), .deleted 0,
      .fired 1 2 (.raw 7 9), .drained 3 300 0] := by
    simp [Undisturbed]
  have hadded : InSpan (mixedWheel 3).log := by
    intro id e c hmem
    have hlog : (mixedWheel 3).log = [.added 3 2 (.raw 8 1), .added 2 1 (.coroutine 5),
      .added 1 0 (.raw 7 9)] := by decide +kernel
    rw [hlog] at hmem
    simp at hmem
  have hdrained : InSpan ((mixedWheel 3).drainOps mixedClock).log := by
    intro id e c hmem
    have hlog : ((mixedWheel 3).drainOps mixedClock).log = [.drained 3 300 0, .drained 2 3 0,
      .drained 1 2 0, .added 3 2 (.raw 8 1), .added 2 1 (.coroutine 5), .added 1 0 (.raw 7 9)] := by
      decide +kernel
    rw [hlog] at hmem
    simp at hmem
    omega
  have hexact := fires_exactly mixedRun_reachable mixedRun_inSpan
  have hbefore := fires_exactly mixedWheel_reachable hadded
  refine ⟨?_, ?_, ?_, ?_⟩
  · rw [hexact.1 _ _ 2 3 0 mixedRun_log hpost, if_pos (by decide +kernel)]
  · rw [hexact.2.1.coroutines, mixedRun_log]
    rfl
  · obtain ⟨l, hlog, -⟩ := hbefore.2.2.2.1 4 mixedRun mixedRun_tick
    exact ⟨l, hlog⟩
  · have hsome : (advanceBy 4 2
        ((mixedWheel 3).drainOps mixedClock).afterReading).isSome = true := by decide +kernel
    obtain ⟨w', hrun⟩ := Option.isSome_iff_exists.mp hsome
    exact ⟨w', hrun, ((hbefore.2.2.2.2 hdrained).2 4 2 w' hrun).2⟩

/-! ## The representation between the calls -/

/-- The map and the buckets hold the same timers, all active, each at the place it records,
and the counter is their number. -/
structure Represented (w : TimerWheel) : Prop where
  active : ∀ id p, w.timerMap id = some p → (w.mem p).active = true
  placed : ∀ id p, w.timerMap id = some p →
    (w.mem p).level < twLevels ∧ (w.mem p).slotIndex < slots ∧
      ∀ level slot pos, (w.buckets level slot)[pos]? = some p ↔
        level = (w.mem p).level ∧ slot = (w.mem p).slotIndex ∧ pos = (w.mem p).posInBucket
  known : ∀ level slot p, p ∈ w.buckets level slot → w.timerMap (w.mem p).id = some p
  keyed : ∀ id p, w.timerMap id = some p → (w.mem p).id = id
  count : ∃ ids : Finset Nat, ids.card = w.activeTimerCount ∧
    ∀ id, id ∈ ids ↔ w.timerMap id ≠ none

theorem Inv.represented {w : TimerWheel} (h : Inv w) : Represented w where
  active id p hp := (h.known p (h.held id p hp).2).1
  placed id p hp := by
    obtain ⟨level, slot, hmem⟩ := (h.held id p hp).2
    obtain ⟨pos, hpos⟩ := List.getElem?_of_mem hmem
    obtain ⟨hlevel, hslot, hposition, hlt, hlt'⟩ := h.linked level slot pos p hpos
    refine ⟨hlevel ▸ hlt, hslot ▸ hlt', fun level' slot' pos' => ⟨fun hp' => ?_, ?_⟩⟩
    · obtain ⟨hlevel', hslot', hposition', -, -⟩ := h.linked level' slot' pos' p hp'
      exact ⟨hlevel'.symm, hslot'.symm, hposition'.symm⟩
    · rintro ⟨rfl, rfl, rfl⟩
      rw [hlevel, hslot, hposition]
      exact hpos
  known level slot p hp := (h.known p ⟨level, slot, hp⟩).2
  keyed id p hp := (h.held id p hp).1
  count := h.count

/-- **The representation.**  It is right between the calls of every run, and when each timer
is drained less than `2^32` before its expiry the next `tick` returns and keeps it so. -/
theorem represented_of_reachable {clock : Clock} {w : TimerWheel}
    (h : Reachable Policy.any clock w) :
    Represented w ∧ (InSpan (w.drainOps clock).log →
      ∃ enough w', ∀ fuel ≥ enough, w.tick clock fuel = some w' ∧ Represented w') := by
  have hinv : Inv w := h.inv trivial
  refine ⟨hinv.represented, fun hdrain => ?_⟩
  have heffs : Effects Policy.any w (w.drainOps clock) := drainOps_effects clock hinv
  obtain ⟨l, hl⟩ := heffs.log_eq
  have hspan : InSpan w.log := InSpan.of_append (hl ▸ hdrain)
  obtain ⟨enough, w', hrun, -⟩ := tick_timely clock hinv (h.timely hspan) hdrain
  refine ⟨enough, w', fun fuel hfuel => ⟨hrun fuel hfuel, ?_⟩⟩
  have hok : Call.tick.Ok Policy.any w := trivial
  have hexec : Call.tick.exec clock fuel w = some w' := hrun fuel hfuel
  have hnext : Reachable Policy.any clock w' := .step h hok hexec
  exact (hnext.inv trivial).represented

def mixedNext : TimerWheel := ((mixedRun.arm 3 (mixedTimer 2)).addTimer mixedClock 3).2

theorem mixedNext_reachable : Reachable Policy.any mixedClock mixedNext := by
  have hok : Call.Ok Policy.any mixedRun (.addTimer 3 (mixedTimer 2)) := by
    have hid : (mixedRun.mem 3).id = 0 := by decide +kernel
    have hnone : mixedRun.timerMap 0 = none := by decide +kernel
    have hqueue : mixedRun.timerOperationsQueue = [] := by decide +kernel
    refine ⟨rfl, fun id heq => ?_, fun id hmem => ?_⟩
    · obtain rfl := ((mixedRun_reachable.inv trivial).held id 3 heq).1
      rw [hid, hnone] at heq
      cases heq
    · rw [hqueue] at hmem
      cases hmem
  have hexec : (Call.addTimer 3 (mixedTimer 2)).exec mixedClock 0 mixedRun = some mixedNext := rfl
  exact .step mixedRun_reachable hok hexec

theorem mixedNext_represented : Represented mixedNext ∧ mixedNext.timerMap 3 = some 2 ∧
    ∃ enough w', ∀ fuel ≥ enough, mixedNext.tick mixedClock fuel = some w' ∧ Represented w' := by
  have hall := represented_of_reachable mixedNext_reachable
  have hlog : (mixedNext.drainOps mixedClock).log =
      .drained 4 303 3 :: .added 4 3 (.raw 8 1) :: mixedRun.log := by decide +kernel
  refine ⟨hall.1, by decide +kernel, hall.2 ?_⟩
  intro id e c hmem
  rw [hlog, mixedRun_log] at hmem
  simp at hmem
  omega

end Uvent.Timers
