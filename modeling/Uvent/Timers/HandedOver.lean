import Uvent.Timers.Runs

/-!
# What the wheel hands over

The wheel hands over in `processSlot` only: for a firing that it logs, the raw callback goes into
`fired_raw_`, or the coroutine into the run queue.  `tick` calls at its end what is in
`fired_raw_`.  No other operation touches the two.
-/

namespace Uvent.Timers

open TimerWheel

def Payload.raws : Payload → List (Nat × Nat)
  | .raw fn arg => [(fn, arg)]
  | _ => []

def Payload.handles : Payload → List Nat
  | .coroutine h => [h]
  | _ => []

def Event.payload? : Event → Option Payload
  | .fired _ _ pl => some pl
  | _ => none

def raws (log : List Event) : List (Nat × Nat) :=
  (log.reverse.filterMap Event.payload?).flatMap Payload.raws

def handles (log : List Event) : List Nat :=
  (log.reverse.filterMap Event.payload?).flatMap Payload.handles

theorem raws_append (l l' : List Event) : raws (l ++ l') = raws l' ++ raws l := by
  rw [raws, List.reverse_append, List.filterMap_append, List.flatMap_append]
  rfl

theorem handles_append (l l' : List Event) : handles (l ++ l') = handles l' ++ handles l := by
  rw [handles, List.reverse_append, List.filterMap_append, List.flatMap_append]
  rfl

theorem raws_of_none {l : List Event} (h : l.reverse.filterMap Event.payload? = []) :
    raws l = [] := by
  rw [raws, h, List.flatMap_nil]

theorem handles_of_none {l : List Event} (h : l.reverse.filterMap Event.payload? = []) :
    handles l = [] := by
  rw [handles, h, List.flatMap_nil]

structure HandsOver (w : TimerWheel) (l : List Event) (w' : TimerWheel) : Prop where
  log : w'.log = l ++ w.log
  raw : w'.firedRaw = w.firedRaw ++ raws l
  coroutines : w'.runQueue = w.runQueue ++ handles l

theorem HandsOver.trans {w w₁ w₂ : TimerWheel} {l l' : List Event} (h : HandsOver w l w₁)
    (h' : HandsOver w₁ l' w₂) : HandsOver w (l' ++ l) w₂ where
  log := by rw [h'.log, h.log, List.append_assoc]
  raw := by rw [h'.raw, h.raw, raws_append, List.append_assoc]
  coroutines := by rw [h'.coroutines, h.coroutines, handles_append, List.append_assoc]

structure Silent (w w' : TimerWheel) : Prop where
  counter : w'.timerIdCounter = w.timerIdCounter
  queue : w'.timerOperationsQueue = w.timerOperationsQueue
  raw : w'.firedRaw = w.firedRaw
  coroutines : w'.runQueue = w.runQueue
  log : ∃ l, w'.log = l ++ w.log ∧ l.reverse.filterMap Event.payload? = []

structure Hands (w w' : TimerWheel) : Prop where
  counter : w'.timerIdCounter = w.timerIdCounter
  queue : w'.timerOperationsQueue = w.timerOperationsQueue
  fires : ∃ l, HandsOver w l w'

section Hands

variable {w w' w₁ : TimerWheel}

namespace Silent

theorem of_same (hcounter : w'.timerIdCounter = w.timerIdCounter)
    (hqueue : w'.timerOperationsQueue = w.timerOperationsQueue) (hlog : w'.log = w.log)
    (hraw : w'.firedRaw = w.firedRaw) (hrun : w'.runQueue = w.runQueue) : Silent w w' :=
  ⟨hcounter, hqueue, hraw, hrun, [], hlog, rfl⟩

theorem refl (w : TimerWheel) : Silent w w := .of_same rfl rfl rfl rfl rfl

theorem trans (h : Silent w w₁) (h' : Silent w₁ w') : Silent w w' := by
  obtain ⟨l, hlog, hl⟩ := h.log
  obtain ⟨l', hlog', hl'⟩ := h'.log
  refine ⟨h'.counter.trans h.counter, h'.queue.trans h.queue, h'.raw.trans h.raw,
    h'.coroutines.trans h.coroutines, l' ++ l, ?_, ?_⟩
  · rw [hlog', hlog, List.append_assoc]
  · rw [List.reverse_append, List.filterMap_append, hl, hl']
    rfl

end Silent

namespace Hands

theorem of_silent (h : Silent w w') : Hands w w' := by
  obtain ⟨l, hlog, hl⟩ := h.log
  refine ⟨h.counter, h.queue, l, hlog, ?_, ?_⟩
  · rw [h.raw, raws_of_none hl, List.append_nil]
  · rw [h.coroutines, handles_of_none hl, List.append_nil]

theorem refl (w : TimerWheel) : Hands w w := .of_silent (.refl w)

theorem trans (h : Hands w w₁) (h' : Hands w₁ w') : Hands w w' := by
  obtain ⟨l, hl⟩ := h.fires
  obtain ⟨l', hl'⟩ := h'.fires
  exact ⟨h'.counter.trans h.counter, h'.queue.trans h.queue, l' ++ l, hl.trans hl'⟩

end Hands

theorem silent_touch (w : TimerWheel) (p : Ptr) : Silent w (w.touch p) :=
  .of_same rfl rfl rfl rfl rfl

theorem silent_modifyTimer (w : TimerWheel) (p : Ptr) (f : Timer → Timer) :
    Silent w (w.modifyTimer p f) := .of_same rfl rfl rfl rfl rfl

theorem silent_record (w : TimerWheel) {e : Event} (he : e.payload? = none) :
    Silent w (w.record e) := by
  refine ⟨rfl, rfl, rfl, rfl, [e], rfl, ?_⟩
  rw [List.reverse_singleton, List.filterMap_cons_none he, List.filterMap_nil]

theorem silent_markCancelled (w : TimerWheel) (id : Nat) : Silent w (w.markCancelled id) :=
  .of_same rfl rfl rfl rfl rfl

theorem silent_markDetached (w : TimerWheel) (id : Nat) : Silent w (w.markDetached id) :=
  .of_same rfl rfl rfl rfl rfl

theorem silent_addTimerToWheel (w : TimerWheel) (p : Ptr) (expiryTime : Nat) :
    Silent w (w.addTimerToWheel p expiryTime) := .of_same rfl rfl rfl rfl rfl

theorem silent_swapPopAt (w : TimerWheel) (level slot pos : Nat) :
    Silent w (w.swapPopAt level slot pos) := by
  unfold swapPopAt
  dsimp only
  split
  · cases (w.buckets level slot).getLast? <;> exact .of_same rfl rfl rfl rfl rfl
  · exact .of_same rfl rfl rfl rfl rfl

theorem silent_popEntry (w : TimerWheel) (p : Ptr) : Silent w (w.popEntry p) := by
  unfold popEntry
  dsimp only
  split
  · exact silent_swapPopAt ..
  · split
    · exact silent_swapPopAt ..
    · exact .refl w

theorem silent_removeTimerFromWheel (w : TimerWheel) (p : Ptr) :
    Silent w (w.removeTimerFromWheel p) := by
  unfold removeTimerFromWheel
  split
  · exact silent_touch w p
  · have hpop := (silent_touch w p).trans (silent_popEntry (w.touch p) p)
    exact hpop.trans (.of_same rfl rfl rfl rfl rfl)

theorem silent_unlink (w : TimerWheel) (id : Nat) (p : Ptr) : Silent w (w.unlink id p) := by
  have hdeactivate : Silent w (w.deactivate p) := silent_modifyTimer ..
  have hremove := hdeactivate.trans (silent_removeTimerFromWheel (w.deactivate p) p)
  exact hremove.trans (.of_same rfl rfl rfl rfl rfl)

/-- What every cancel and `REMOVE` do with a timer in the wheel. -/
theorem silent_takeOut (w : TimerWheel) (id : Nat) (p : Ptr) {e : Event}
    (he : e.payload? = none) : Silent w (((w.touch p).unlink id p).record e) :=
  ((silent_touch w p).trans (silent_unlink _ id p)).trans (silent_record _ he)

theorem silent_deleteIf (w : TimerWheel) (heap : Bool) (p : Ptr) : Silent w (w.deleteIf heap p) := by
  cases heap with
  | true => exact silent_record w rfl
  | false => exact .refl w

theorem silent_dispose (w : TimerWheel) (p : Ptr) : Silent w (w.dispose p) := by
  have hdestroy : Silent (w.touch p) ((w.touch p).destroyCoro (w.mem p).coro) := by
    cases (w.mem p).coro with
    | none => exact .refl _
    | some h => exact silent_record _ rfl
  exact ((silent_touch w p).trans hdestroy).trans (silent_deleteIf ..)

theorem silent_release (w : TimerWheel) (id : Nat) : Silent w (w.release id) := by
  unfold TimerWheel.release
  cases w.addedAs id with
  | none => exact .refl w
  | some q =>
    dsimp only
    split
    · exact .of_same rfl rfl rfl rfl rfl
    · exact .refl w

theorem silent_cancelTimer (w : TimerWheel) (id : Nat) : Silent w (w.cancelTimer id).2 := by
  have hmark : Silent w ((w.markCancelled id).record (.cancelled id)) :=
    (silent_markCancelled w id).trans (silent_record _ rfl)
  unfold cancelTimer
  by_cases hid : id = 0
  · rw [if_pos hid]
    exact silent_record _ rfl
  rw [if_neg hid]
  cases w.timerMap id with
  | none =>
    dsimp only
    split
    · dsimp only
      split
      · exact hmark.trans (silent_release _ id)
      · exact hmark
    · exact silent_record _ rfl
  | some p =>
    dsimp only
    split
    · have hout := silent_takeOut w id p (e := .cancelled id) rfl
      have hdispose := hout.trans (silent_dispose _ p)
      dsimp only
      split
      · exact hdispose
      · exact hdispose.trans (silent_release _ id)
    · exact (silent_touch w p).trans (silent_record _ rfl)

theorem silent_cancelTimerDetach (w : TimerWheel) (id : Nat) :
    Silent w (w.cancelTimerDetach id).2 := by
  have hmark : Silent w ((w.markDetached id).record (.cancelled id)) :=
    (silent_markDetached w id).trans (silent_record _ rfl)
  unfold cancelTimerDetach
  by_cases hid : id = 0
  · rw [if_pos hid]
    exact silent_record _ rfl
  rw [if_neg hid]
  cases w.timerMap id with
  | none =>
    dsimp only
    split
    · exact hmark.trans (silent_release _ id)
    · exact silent_record _ rfl
  | some p =>
    dsimp only
    split
    · exact (silent_takeOut w id p (e := .cancelled id) rfl).trans (silent_release _ id)
    · exact (silent_touch w p).trans (silent_record _ rfl)

/-! ## Draining -/

theorem silent_accept (w : TimerWheel) (p : Ptr) : Silent w (w.accept p) := by
  have hplace := (silent_touch w p).trans (silent_addTimerToWheel _ p (w.mem p).expiryTime)
  have hinsert : Silent w
      (((w.touch p).addTimerToWheel p (w.mem p).expiryTime).insertId (w.mem p).id p) :=
    hplace.trans (.of_same rfl rfl rfl rfl rfl)
  exact hinsert.trans (silent_record _ rfl)

theorem silent_applyAdd (w : TimerWheel) (p : Ptr) (addId : Nat) : Silent w (w.applyAdd p addId) := by
  have hraise : Silent w (w.raiseMax addId) := .of_same rfl rfl rfl rfl rfl
  unfold applyAdd
  dsimp only
  split
  · exact hraise.trans (.of_same rfl rfl rfl rfl rfl)
  · split
    · have herase : Silent (w.raiseMax addId) { w.raiseMax addId with
          cancelledPending := (w.raiseMax addId).cancelledPending.erase addId } :=
        .of_same rfl rfl rfl rfl rfl
      exact (hraise.trans herase).trans (silent_dispose ..)
    · exact hraise.trans (silent_accept ..)

theorem silent_rearm (w : TimerWheel) (id : Nat) (p : Ptr) (newDur expiry : Nat) :
    Silent w (w.rearm id p newDur expiry) := by
  have hread : Silent (w.removeTimerFromWheel p) (w.removeTimerFromWheel p).afterReading :=
    .of_same rfl rfl rfl rfl rfl
  have hmodify := ((silent_removeTimerFromWheel w p).trans hread).trans (silent_modifyTimer _ p
    fun t => { t with durationMs := newDur, expiryTime := expiry })
  exact (hmodify.trans (silent_addTimerToWheel _ p expiry)).trans (silent_record _ rfl)

theorem silent_applyUpdate (clock : Clock) (w : TimerWheel) (id newDur : Nat) :
    Silent w (w.applyUpdate clock id newDur) := by
  unfold applyUpdate
  cases w.timerMap id with
  | none => exact .refl w
  | some p =>
    dsimp only
    split
    · exact (silent_touch w p).trans (silent_rearm ..)
    · exact silent_touch w p

theorem silent_applyRemove (w : TimerWheel) (id : Nat) (done : Option (Nat × Nat)) :
    Silent w ((w.applyRemove id).applyDone id done) := by
  have hremove : Silent w (w.applyRemove id) := by
    unfold applyRemove
    cases w.timerMap id with
    | none =>
      dsimp only
      split
      · exact (silent_markCancelled w id).trans (silent_record _ rfl)
      · exact .refl w
    | some p =>
      dsimp only
      split
      · exact (silent_takeOut w id p (e := .removed id) rfl).trans (silent_dispose _ p)
      · exact silent_touch w p
  cases done with
  | none => exact hremove
  | some call => exact (hremove.trans (silent_record _ rfl)).trans (silent_release _ id)

theorem silent_applyOp (clock : Clock) (w : TimerWheel) (op : Op) :
    Silent w (w.applyOp clock op) := by
  cases op with
  | add p addId => exact silent_applyAdd w p addId
  | update id newDur => exact silent_applyUpdate clock w id newDur
  | remove id done => exact silent_applyRemove w id done

theorem silent_drainLoop (clock : Clock) (ops : List Op) :
    ∀ w : TimerWheel, ∃ l, (drainLoop clock ops w).log = l ++ w.log ∧
      l.reverse.filterMap Event.payload? = [] ∧ (drainLoop clock ops w).firedRaw = w.firedRaw ∧
      (drainLoop clock ops w).runQueue = w.runQueue := by
  induction ops with
  | nil => exact fun w => ⟨[], rfl, rfl, rfl, rfl⟩
  | cons op rest ih =>
    intro w
    have hop := silent_applyOp clock { w with timerOperationsQueue := rest } op
    obtain ⟨l, hlog, hl⟩ := hop.log
    obtain ⟨l', hlog', hl', hraw, hrun⟩ := ih ({ w with timerOperationsQueue := rest }.applyOp clock op)
    refine ⟨l' ++ l, ?_, ?_, hraw.trans hop.raw, hrun.trans hop.coroutines⟩
    · rw [drainLoop, hlog', hlog, List.append_assoc]
    · rw [List.reverse_append, List.filterMap_append, hl, hl']
      rfl

/-! ## Advancing -/

theorem hands_handOver (w : TimerWheel) (id : Nat) (pl : Payload) :
    Hands w ((w.handOver pl).record (.fired id w.currentTime pl)) := by
  cases pl with
  | raw fn arg => exact ⟨rfl, rfl, [_], rfl, rfl, (List.append_nil _).symm⟩
  | coroutine h => exact ⟨rfl, rfl, [_], rfl, (List.append_nil _).symm, rfl⟩
  | nothing => exact ⟨rfl, rfl, [_], rfl, (List.append_nil _).symm, (List.append_nil _).symm⟩

theorem hands_fire (w : TimerWheel) (p : Ptr) : Hands w (w.fire p) := by
  have hover := hands_handOver w (w.mem p).id (w.mem p).payload
  have hend : ∀ w₁ : TimerWheel, Silent w₁
      (((w₁.deactivate p).eraseId (w.mem p).id).markDirty (w.mem p).expiryTime) := fun w₁ =>
    .of_same rfl rfl rfl rfl rfl
  exact hover.trans (.of_silent ((hend _).trans (silent_deleteIf ..)))

theorem hands_visit (w : TimerWheel) (p : Ptr) : Hands w (w.visit p) := by
  unfold visit
  split
  · split
    · exact (Hands.of_silent (silent_touch w p)).trans (hands_fire ..)
    · exact .of_silent ((silent_touch w p).trans (silent_addTimerToWheel ..))
  · exact .of_silent (silent_touch w p)

theorem hands_processSlot {level slot : Nat} (fuel : Nat) :
    ∀ {w w' : TimerWheel}, processSlot level slot fuel w = some w' → Hands w w' := by
  induction fuel with
  | zero => intro w w' hrun; cases hrun
  | succ fuel ih =>
    intro w w' hrun
    rw [processSlot] at hrun
    cases hbucket : w.buckets level slot with
    | nil =>
      rw [hbucket] at hrun
      obtain rfl := Option.some.inj hrun
      exact .refl w
    | cons p tail =>
      rw [hbucket] at hrun
      have hround := (hands_visit w p).trans (.of_silent (silent_swapPopAt _ level slot 0))
      exact hround.trans (ih hrun)

theorem hands_cascade (fuel level : Nat) :
    ∀ {w w' : TimerWheel}, cascade fuel level w = some w' → Hands w w' := by
  induction level with
  | zero =>
    intro w w' hrun
    obtain rfl := Option.some.inj hrun
    exact .refl w
  | succ level ih =>
    intro w w' hrun
    rw [cascade] at hrun
    split at hrun
    · exact ih hrun
    · cases hslot : processSlot (level + 1) (w.currentTime / interval (level + 1) % slots) fuel w with
      | none => rw [hslot] at hrun; cases hrun
      | some w₁ =>
        rw [hslot] at hrun
        exact (hands_processSlot fuel hslot).trans (ih hrun)

theorem hands_advance {fuel : Nat} (hrun : advance fuel w = some w') : Hands w w' := by
  unfold advance at hrun
  cases hcas : cascade fuel (twLevels - 1) { w with currentTime := w.currentTime + 1 } with
  | none => rw [hcas] at hrun; cases hrun
  | some w₁ =>
    rw [hcas] at hrun
    have hpass : Hands w { w with currentTime := w.currentTime + 1 } :=
      .of_silent (.of_same rfl rfl rfl rfl rfl)
    exact (hpass.trans (hands_cascade fuel _ hcas)).trans (hands_processSlot fuel hrun)

theorem hands_advanceBy {fuel : Nat} (rounds : Nat) :
    ∀ {w w' : TimerWheel}, advanceBy fuel rounds w = some w' → Hands w w' := by
  induction rounds with
  | zero =>
    intro w w' hrun
    obtain rfl := Option.some.inj hrun
    exact .refl w
  | succ rounds ih =>
    intro w w' hrun
    rw [advanceBy] at hrun
    cases hadv : advance fuel w with
    | none => rw [hadv] at hrun; cases hrun
    | some w₁ =>
      rw [hadv] at hrun
      exact (hands_advance hadv).trans (ih hrun)

/-! ## The end of a tick -/

theorem foldl_scanTimer_silent (ps : List Ptr) :
    ∀ w : TimerWheel, Silent w (ps.foldl scanTimer w) := by
  induction ps with
  | nil => exact .refl
  | cons p ps ih =>
    intro w
    have hscan : Silent w (w.scanTimer p) := .of_same rfl rfl rfl rfl rfl
    exact hscan.trans (ih (w.scanTimer p))

theorem silent_refreshNextExpiry (w : TimerWheel) : Silent w w.refreshNextExpiry := by
  have hminimum : Silent w w.refreshMinimum := by
    unfold refreshMinimum
    split
    · exact .of_same rfl rfl rfl rfl rfl
    · split
      · have hzero : Silent w { w with nextExpiryTime := 0 } := .of_same rfl rfl rfl rfl rfl
        exact hzero.trans (foldl_scanTimer_silent w.entries _)
      · exact .refl w
  exact hminimum.trans (.of_same rfl rfl rfl rfl rfl)

/-- The calls of the callbacks in `fired_raw_`, newest first. -/
def calls (fired : List (Nat × Nat)) : List Event :=
  fired.reverse.map fun c => .called c.1 c.2

theorem foldl_callRaw_eq (fired : List (Nat × Nat)) :
    ∀ w : TimerWheel, fired.foldl callRaw w = { w with log := calls fired ++ w.log } := by
  induction fired with
  | nil => exact fun w => rfl
  | cons c fired ih =>
    intro w
    have hcalls : calls (c :: fired) = calls fired ++ [.called c.1 c.2] := by
      rw [calls, List.reverse_cons, List.map_append]
      rfl
    rw [List.foldl_cons, ih, hcalls, List.append_assoc]
    rfl

theorem runFired_eq (w : TimerWheel) :
    w.runFired = { w with firedRaw := [], log := calls w.firedRaw ++ w.log } := by
  rw [runFired, foldl_callRaw_eq]

theorem filterMap_calls (fired : List (Nat × Nat)) :
    (calls fired).reverse.filterMap Event.payload? = [] := by
  rw [calls, ← List.map_reverse, List.reverse_reverse, List.filterMap_eq_nil_iff]
  intro e he
  obtain ⟨c, _, rfl⟩ := List.mem_map.mp he
  rfl

/-! ## Runs -/

variable {policy : Policy} {clock : Clock}

/-- Between the calls `fired_raw_` is empty, and the run queue holds the coroutines of the
timers that fired, in their order. -/
structure HandedAll (w : TimerWheel) : Prop where
  raw : w.firedRaw = []
  coroutines : w.runQueue = handles w.log

theorem handsOver_advanceBy {fuel rounds : Nat}
    (hrun : advanceBy fuel rounds (w.drainOps clock).afterReading = some w') :
    ∃ l, HandsOver w l w' := by
  obtain ⟨l, hlog, hl, hraw, hqueue⟩ := silent_drainLoop clock w.timerOperationsQueue w
  obtain ⟨l', hover⟩ := (hands_advanceBy rounds hrun).fires
  refine ⟨l' ++ l, ?_, ?_, ?_⟩
  · rw [hover.log, List.append_assoc, ← hlog]
    rfl
  · rw [hover.raw, raws_append, raws_of_none hl, List.nil_append, ← hraw]
    rfl
  · rw [hover.coroutines, handles_append, handles_of_none hl, List.nil_append, ← hqueue]
    rfl

/-- `tick` calls the raw callbacks of the timers that it fires. -/
theorem HandedAll.tick {fuel : Nat} (h : HandedAll w) (hrun : w.tick clock fuel = some w') :
    HandedAll w' ∧ ∃ l, w'.log = calls (raws l) ++ l ++ w.log ∧
      w'.runQueue = w.runQueue ++ handles l := by
  unfold TimerWheel.tick at hrun
  dsimp only at hrun
  split at hrun
  · obtain rfl := Option.some.inj hrun
    obtain ⟨l, hlog, hl, hraw, hqueue⟩ := silent_drainLoop clock w.timerOperationsQueue w
    have hrefresh := silent_refreshNextExpiry (w.drainOps clock).afterReading
    obtain ⟨l', hlog', hl'⟩ := hrefresh.log
    have hnone : (l' ++ l).reverse.filterMap Event.payload? = [] := by
      rw [List.reverse_append, List.filterMap_append, hl, hl']
      rfl
    have hlogs : (w.drainOps clock).afterReading.refreshNextExpiry.log = (l' ++ l) ++ w.log := by
      rw [hlog', List.append_assoc, ← hlog]
      rfl
    have hruns : (w.drainOps clock).afterReading.refreshNextExpiry.runQueue = w.runQueue :=
      hrefresh.coroutines.trans hqueue
    refine ⟨⟨(hrefresh.raw.trans hraw).trans h.raw, ?_⟩, l' ++ l, ?_, ?_⟩
    · rw [hruns, hlogs, handles_append, handles_of_none hnone, List.append_nil, h.coroutines]
    · rw [hlogs, raws_of_none hnone]
      rfl
    · rw [hruns, handles_of_none hnone, List.append_nil]
  · split at hrun
    · cases hrun
    · next w₁ hadvance =>
      obtain rfl := Option.some.inj hrun
      obtain ⟨l, hover⟩ := handsOver_advanceBy hadvance
      have hrefresh := silent_refreshNextExpiry w₁
      obtain ⟨l', hlog', hl'⟩ := hrefresh.log
      have hraws : w₁.refreshNextExpiry.firedRaw = raws (l' ++ l) := by
        rw [hrefresh.raw, hover.raw, h.raw, raws_append, raws_of_none hl', List.append_nil,
          List.nil_append]
      have hhandles : w₁.refreshNextExpiry.runQueue = w.runQueue ++ handles (l' ++ l) := by
        rw [hrefresh.coroutines, hover.coroutines, handles_append, handles_of_none hl',
          List.append_nil]
      have hlogs : w₁.refreshNextExpiry.log = (l' ++ l) ++ w.log := by
        rw [hlog', hover.log, List.append_assoc]
      rw [runFired_eq]
      refine ⟨⟨rfl, ?_⟩, l' ++ l, ?_, hhandles⟩
      · change w₁.refreshNextExpiry.runQueue = handles (calls _ ++ w₁.refreshNextExpiry.log)
        rw [hhandles, hlogs, handles_append (calls _), handles_of_none (filterMap_calls _),
          List.append_nil, handles_append (l' ++ l), h.coroutines]
      · change calls w₁.refreshNextExpiry.firedRaw ++ w₁.refreshNextExpiry.log = _
        rw [hraws, hlogs, List.append_assoc (calls _)]

theorem HandedAll.of_silent (h : HandedAll w) (hsilent : Silent w w') : HandedAll w' where
  raw := hsilent.raw.trans h.raw
  coroutines := by
    obtain ⟨l, hlog, hl⟩ := hsilent.log
    rw [hsilent.coroutines, hlog, handles_append, handles_of_none hl, List.append_nil,
      h.coroutines]

theorem HandedAll.issue (h : HandedAll w) (p : Ptr) (expiry : Nat) :
    HandedAll (w.issue p expiry) where
  raw := h.raw
  coroutines := by
    change w.runQueue = handles ([.added (w.timerIdCounter + 1) p (w.mem p).payload] ++ w.log)
    rw [handles_append, ← h.coroutines]
    exact (List.append_nil _).symm

theorem HandedAll.exec {call : Call} {fuel : Nat} (h : HandedAll w)
    (hrun : call.exec clock fuel w = some w') : HandedAll w' := by
  cases call with
  | tick => exact (h.tick hrun).1
  | addTimer p t =>
    obtain rfl := Option.some.inj hrun
    exact HandedAll.issue (w := (w.arm p t).afterReading) ⟨h.raw, h.coroutines⟩ p _
  | updateTimer | removeTimer | getNextTimeout =>
    obtain rfl := Option.some.inj hrun
    exact ⟨h.raw, h.coroutines⟩
  | cancelTimer id =>
    obtain rfl := Option.some.inj hrun
    exact h.of_silent (silent_cancelTimer w id)
  | cancelTimerDetach id =>
    obtain rfl := Option.some.inj hrun
    exact h.of_silent (silent_cancelTimerDetach w id)

theorem Reachable.handedAll (h : Reachable policy clock w) : HandedAll w := by
  induction h with
  | start => exact ⟨rfl, rfl⟩
  | step _ _ hrun ih => exact ih.exec hrun

end Hands

end Uvent.Timers
