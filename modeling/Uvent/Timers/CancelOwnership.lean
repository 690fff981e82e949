import Uvent.Timers.Runs

/-!
# Who owns a timer after a cancel

An id is spent once its timer has fired, was removed or was cancelled.  The two
cancels decide whether it is from the map, `maxAddedId_` and the two sets of
pending ids; the sets are not asked, so they answer for the first cancel of an
id whose `ADD` is queued, and not for the next.
-/

namespace Uvent.Timers

open TimerWheel Relation

def Event.Ends (id : Nat) (e : Event) : Prop :=
  (∃ t pl, e = .fired id t pl) ∨ e = .removed id ∨ e = .cancelled id

def Spent (log : List Event) (id : Nat) : Prop := ∃ e ∈ log, Event.Ends id e

/-- The `ADD` of the id is not drained yet, and the id is already marked. -/
def MarkedInQueue (w : TimerWheel) (id : Nat) : Prop :=
  w.maxAddedId < id ∧ (id ∈ w.cancelledPending ∨ id ∈ w.detachedPending)

/-- An id whose queued `ADD` is already marked is not cancelled again. -/
def Policy.once : Policy where
  cancel w id := ¬MarkedInQueue w id
  detach w id := ¬MarkedInQueue w id
  remove _ _ := True
  advancing := True

/-- Each result of a cancel, and each firing, agrees with the log before it; no
timer gets the id `0`. -/
def Honest : List Event → Prop
  | [] => True
  | .added id _ _ :: log => 0 < id ∧ Honest log
  | .cancelled id :: log => ¬Spent log id ∧ Honest log
  | .fired id _ _ :: log => ¬Spent log id ∧ Honest log
  | .refused id :: log => (id ≠ 0 → Spent log id) ∧ Honest log
  | _ :: log => Honest log

theorem spent_cons {id : Nat} {e : Event} {log : List Event} :
    Spent (e :: log) id ↔ Event.Ends id e ∨ Spent log id := by
  unfold Spent
  simp

theorem spent_append {id : Nat} {l log : List Event} :
    Spent (l ++ log) id ↔ Spent l id ∨ Spent log id := by
  unfold Spent
  simp only [List.mem_append, or_and_right, exists_or]

theorem not_ends_of_plain {id : Nat} {e : Event} (he : e.Plain) : ¬Event.Ends id e := by
  rintro (⟨t, pl, rfl⟩ | rfl | rfl) <;> exact he

theorem not_spent_of_plain {id : Nat} {plain : List Event} (h : ∀ e ∈ plain, e.Plain) :
    ¬Spent plain id := by
  rintro ⟨e, he, hends⟩
  exact not_ends_of_plain (h e he) hends

theorem honest_of_plain {plain log : List Event} (h : ∀ e ∈ plain, e.Plain) (hlog : Honest log) :
    Honest (plain ++ log) := by
  induction plain with
  | nil => exact hlog
  | cons e plain ih =>
      have hrest := ih fun e' he' => h e' (List.mem_cons_of_mem _ he')
      have he := h e List.mem_cons_self
      rw [List.cons_append]
      cases e <;> first | exact hrest | exact False.elim he

/-! ## The books and the log agree -/

structure Ledger (w : TimerWheel) : Prop where
  pending : ∀ id, w.maxAddedId < id →
    (Spent w.log id ↔ id ∈ w.cancelledPending ∨ id ∈ w.detachedPending)
  mapped : ∀ id, 0 < id → id ≤ w.maxAddedId → (Spent w.log id ↔ w.timerMap id = none)
  honest : Honest w.log

section Ledger

variable {w w' : TimerWheel} {p : Ptr}

theorem Ledger.of_same (h : Ledger w) (hmap : w'.timerMap = w.timerMap)
    (hmax : w'.maxAddedId = w.maxAddedId) (hc : w'.cancelledPending = w.cancelledPending)
    (hd : w'.detachedPending = w.detachedPending)
    (hspent : ∀ id, Spent w'.log id ↔ Spent w.log id) (hhonest : Honest w'.log) : Ledger w' := by
  refine ⟨?_, ?_, hhonest⟩
  · intro id hid
    rw [hspent, hc, hd]
    exact h.pending id (hmax ▸ hid)
  · intro id hpos hid
    rw [hspent, hmap]
    exact h.mapped id hpos (hmax ▸ hid)

/-- An id that is not drained yet is marked, and the log says so. -/
theorem Ledger.of_mark (h : Ledger w) {id : Nat} {q : List Op} {c d : Finset Nat}
    {r : Finset Ptr} {l : List Event}
    (books : w'.books = { w.books with
      timerOperationsQueue := q, cancelledPending := c, detachedPending := d, released := r,
      log := l })
    (new : id > w.maxAddedId)
    (hmarks : ∀ x, (x ∈ c ∨ x ∈ d) ↔ x = id ∨ x ∈ w.cancelledPending ∨ x ∈ w.detachedPending)
    (hspent : ∀ x, Spent l x ↔ x = id ∨ Spent w.log x) (hhonest : Honest l) : Ledger w' := by
  have hlog : w'.log = l := congrArg Books.log books
  have hmap : w'.timerMap = w.timerMap := congrArg Books.timerMap books
  have hmax : w'.maxAddedId = w.maxAddedId := congrArg Books.maxAddedId books
  have hc : w'.cancelledPending = c := congrArg Books.cancelledPending books
  have hd : w'.detachedPending = d := congrArg Books.detachedPending books
  refine ⟨?_, ?_, by rw [hlog]; exact hhonest⟩
  · intro x hx
    rw [hmax] at hx
    rw [hlog, hspent, hc, hd, hmarks, h.pending x hx]
  · intro x hpos hx
    rw [hmax] at hx
    have hne : x ≠ id := by omega
    rw [hlog, hspent, hmap, ← h.mapped x hpos hx]
    simp [hne]

/-- The `ADD` at the head of the queue is drained; whether its id is in the map
now is whether it was not marked. -/
theorem Ledger.of_drain (hl : Ledger w) (h : Inv w) {id : Nat} {rest : List Op}
    (head : w.timerOperationsQueue = .add p id :: rest)
    (hmax : w'.maxAddedId = max w.maxAddedId id)
    (hc : ∀ x, x ≠ id → (x ∈ w'.cancelledPending ↔ x ∈ w.cancelledPending))
    (hd : ∀ x, x ≠ id → (x ∈ w'.detachedPending ↔ x ∈ w.detachedPending))
    (hmap : ∀ x, x ≠ id → w'.timerMap x = w.timerMap x)
    (hself : w'.timerMap id = none ↔ id ∈ w.cancelledPending ∨ id ∈ w.detachedPending)
    (hspent : ∀ x, Spent w'.log x ↔ Spent w.log x) (hhonest : Honest w'.log) : Ledger w' := by
  obtain ⟨hid, -, -⟩ := h.head_id head
  have hmaxId : w'.maxAddedId = id := by omega
  refine ⟨?_, ?_, hhonest⟩
  · intro x hx
    rw [hmaxId] at hx
    rw [hspent, hc x (by omega), hd x (by omega)]
    exact hl.pending x (by omega)
  · intro x hpos hx
    rw [hmaxId] at hx
    rw [hspent]
    by_cases hxid : x = id
    · rw [hxid, hself]
      exact hl.pending id (by omega)
    · rw [hmap x hxid]
      exact hl.mapped x hpos (by omega)

theorem Ledger.of_out (hl : Ledger w) (h : Inv w) {id k : Nat} {e : Event}
    (mapped : w.timerMap id = some p) (ends : ∀ x, Event.Ends x e ↔ x = id)
    (books : w'.books = { w.books with
      timerMap := Function.update w.timerMap id none, activeTimerCount := k,
      log := e :: w.log })
    (hhonest : ¬Spent w.log id → Honest (e :: w.log)) : Ledger w' := by
  have hlog : w'.log = e :: w.log := congrArg Books.log books
  have hmap : w'.timerMap = Function.update w.timerMap id none := congrArg Books.timerMap books
  have hmax : w'.maxAddedId = w.maxAddedId := congrArg Books.maxAddedId books
  have hc : w'.cancelledPending = w.cancelledPending := congrArg Books.cancelledPending books
  have hd : w'.detachedPending = w.detachedPending := congrArg Books.detachedPending books
  obtain ⟨hpos, hle⟩ := h.mapped id p mapped
  have hunspent : ¬Spent w.log id := by
    rw [hl.mapped id hpos hle, mapped]
    simp
  refine ⟨?_, ?_, by rw [hlog]; exact hhonest hunspent⟩
  · intro x hx
    rw [hmax] at hx
    have hne : x ≠ id := by omega
    rw [hlog, spent_cons, ends, hc, hd, ← hl.pending x hx]
    simp [hne]
  · intro x hxpos hx
    rw [hmax] at hx
    rw [hlog, spent_cons, ends, hmap]
    by_cases hxid : x = id
    · simp [hxid]
    · rw [Function.update_of_ne hxid, ← hl.mapped x hxpos hx]
      simp [hxid]

theorem Ledger.of_note (h : Ledger w) {l : List Event} {q : List Op} {r : Finset Ptr}
    {a : Nat → Option Ptr} {counter time : Nat}
    (books : w'.books = { w.books with
      timerOperationsQueue := q, timerIdCounter := counter, addedAs := a, released := r,
      currentTime := time, log := l })
    (hspent : ∀ id, Spent l id ↔ Spent w.log id) (hhonest : Honest l) : Ledger w' := by
  have hlog : w'.log = l := congrArg Books.log books
  apply h.of_same (congrArg Books.timerMap books) (congrArg Books.maxAddedId books)
    (congrArg Books.cancelledPending books) (congrArg Books.detachedPending books)
  · rw [hlog]
    exact hspent
  · rw [hlog]
    exact hhonest

theorem spent_cons_of_not {e : Event} {log : List Event} (h : ∀ id, ¬Event.Ends id e) (id : Nat) :
    Spent (e :: log) id ↔ Spent log id := by
  rw [spent_cons]
  exact or_iff_right (h id)

theorem ends_cancelled (id x : Nat) : Event.Ends x (.cancelled id) ↔ x = id := by
  simp [Event.Ends, eq_comm]

theorem ends_removed (id x : Nat) : Event.Ends x (.removed id) ↔ x = id := by
  simp [Event.Ends, eq_comm]

theorem ends_fired (id time : Nat) (pl : Payload) (x : Nat) :
    Event.Ends x (.fired id time pl) ↔ x = id := by
  simp [Event.Ends, eq_comm]

theorem Ledger.dropDetached (hl : Ledger w) (h : Inv w) {id : Nat} {rest : List Op}
    (head : w.timerOperationsQueue = .add p id :: rest) (detached : id ∈ w.detachedPending)
    (books : w'.books =
      { w.books with
        timerOperationsQueue := rest, maxAddedId := max w.maxAddedId id,
        detachedPending := w.detachedPending.erase id }) : Ledger w' := by
  have hlog : w'.log = w.log := congrArg Books.log books
  have hmap : w'.timerMap = w.timerMap := congrArg Books.timerMap books
  have hc : w'.cancelledPending = w.cancelledPending := congrArg Books.cancelledPending books
  have hd : w'.detachedPending = w.detachedPending.erase id :=
    congrArg Books.detachedPending books
  have hunmapped : w.timerMap id = none := h.unmapped_head head
  refine hl.of_drain h head (congrArg Books.maxAddedId books) ?_ ?_ ?_ ?_ ?_ ?_
  · simp [hc]
  · intro x hx
    simp [hd, hx]
  · simp [hmap]
  · simp [hmap, hunmapped, detached]
  · simp [hlog]
  · rw [hlog]
    exact hl.honest

theorem Ledger.dropCancelled (hl : Ledger w) (h : Inv w) {id : Nat} {rest : List Op}
    (head : w.timerOperationsQueue = .add p id :: rest) (cancelled : id ∈ w.cancelledPending)
    (books : w'.books =
      { w.books with
        timerOperationsQueue := rest, maxAddedId := max w.maxAddedId id,
        cancelledPending := w.cancelledPending.erase id }) : Ledger w' := by
  have hlog : w'.log = w.log := congrArg Books.log books
  have hmap : w'.timerMap = w.timerMap := congrArg Books.timerMap books
  have hc : w'.cancelledPending = w.cancelledPending.erase id :=
    congrArg Books.cancelledPending books
  have hd : w'.detachedPending = w.detachedPending := congrArg Books.detachedPending books
  have hunmapped : w.timerMap id = none := h.unmapped_head head
  refine hl.of_drain h head (congrArg Books.maxAddedId books) ?_ ?_ ?_ ?_ ?_ ?_
  · intro x hx
    simp [hc, hx]
  · simp [hd]
  · simp [hmap]
  · simp [hmap, hunmapped, cancelled]
  · simp [hlog]
  · rw [hlog]
    exact hl.honest

theorem Ledger.accept (hl : Ledger w) (h : Inv w) {id : Nat} {rest : List Op}
    (head : w.timerOperationsQueue = .add p id :: rest) (attached : id ∉ w.detachedPending)
    (live : id ∉ w.cancelledPending)
    (books : w'.books =
      { w.books with
        timerOperationsQueue := rest, maxAddedId := max w.maxAddedId id,
        timerMap := Function.update w.timerMap (w.mem p).id (some p),
        activeTimerCount := w.activeTimerCount + 1,
        log := .drained (w.mem p).id (w.mem p).expiryTime w.currentTime :: w.log }) :
    Ledger w' := by
  obtain ⟨hpid, -, -⟩ := h.live p id (by rw [head]; exact List.mem_cons_self) live attached
  have hlog : w'.log = .drained (w.mem p).id (w.mem p).expiryTime w.currentTime :: w.log :=
    congrArg Books.log books
  have hmap : w'.timerMap = Function.update w.timerMap id (some p) := by
    rw [← hpid]
    exact congrArg Books.timerMap books
  have hc : w'.cancelledPending = w.cancelledPending := congrArg Books.cancelledPending books
  have hd : w'.detachedPending = w.detachedPending := congrArg Books.detachedPending books
  refine hl.of_drain h head (congrArg Books.maxAddedId books) ?_ ?_ ?_ ?_ ?_ ?_
  · simp [hc]
  · simp [hd]
  · intro x hx
    rw [hmap, Function.update_of_ne hx]
  · simp [hmap, attached, live]
  · rw [hlog]
    exact spent_cons_of_not fun x => by simp [Event.Ends]
  · rw [hlog]
    exact hl.honest

theorem Ledger.unspent (hl : Ledger w) {id : Nat} (new : id > w.maxAddedId)
    (ok : ¬MarkedInQueue w id) : ¬Spent w.log id := by
  rw [hl.pending id new]
  exact fun hmark => ok ⟨new, hmark⟩

theorem Ledger.effect (hl : Ledger w) (h : Inv w) (heff : Effect Policy.once w w') :
    Ledger w' := by
  have hsame : ∀ id, Spent w.log id ↔ Spent w.log id := fun _ => Iff.rfl
  cases heff with
  | quiet still books => exact hl.of_note books hsame hl.honest
  | refresh hbuckets hmem books => exact hl.of_note books hsame hl.honest
  | note e plain still books =>
      apply hl.of_note books
      · exact spent_cons_of_not fun _ => not_ends_of_plain plain
      · have hall : ∀ e' ∈ [e], e'.Plain := by simpa using plain
        exact honest_of_plain hall hl.honest
  | refused id unmapped old still books =>
      apply hl.of_note books
      · exact spent_cons_of_not fun x => by simp [Event.Ends]
      · refine ⟨fun hid => ?_, hl.honest⟩
        have hle : id ≤ w.maxAddedId := by omega
        exact (hl.mapped id (by omega) hle).mpr unmapped
  | update id newDur still books => exact hl.of_note books hsame hl.honest
  | remove id done ok still books => exact hl.of_note books hsame hl.honest
  | add p t expiry ok hbuckets hmem books =>
      apply hl.of_note books
      · exact spent_cons_of_not fun x => by simp [Event.Ends]
      · exact ⟨Nat.succ_pos _, hl.honest⟩
  | pendCancel id ok pos unmapped new still books =>
      apply hl.of_mark books new
      · intro x
        exact (or_congr_left Finset.mem_insert).trans or_assoc
      · intro x
        rw [spent_cons, ends_cancelled]
      · exact ⟨hl.unspent new ok, hl.honest⟩
  | pendDetach id ok pos unmapped new still books =>
      apply hl.of_mark books new
      · intro x
        exact (or_congr_right Finset.mem_insert).trans or_left_comm
      · intro x
        rw [spent_cons, ends_cancelled]
      · exact ⟨hl.unspent new ok, hl.honest⟩
  | pendRemove id done rest plain released hplain head unmapped new still books =>
      apply hl.of_mark books new
      · intro x
        exact (or_congr_left Finset.mem_insert).trans or_assoc
      · intro x
        rw [spent_append, or_iff_right (not_spent_of_plain hplain), spent_cons, ends_removed]
      · exact honest_of_plain hplain hl.honest
  | release id unmapped gone still books => exact hl.of_note books hsame hl.honest
  | pop op rest head other still books => exact hl.of_note books hsame hl.honest
  | dropDetached p id rest head detached still books => exact hl.dropDetached h head detached books
  | dropCancelled p id rest head attached cancelled hbuckets hmem books =>
      exact hl.dropCancelled h head cancelled books
  | accept p id rest head attached live moved books => exact hl.accept h head attached live books
  | rearm id p newDur expiry mapped moved books =>
      apply hl.of_note books
      · exact spent_cons_of_not fun x => by simp [Event.Ends]
      · exact hl.honest
  | unlink id p e kind mapped moved books =>
      refine hl.of_out h mapped ?_ books ?_
      · rcases kind with rfl | rfl
        · exact ends_cancelled id
        · exact ends_removed id
      · intro hunspent
        rcases kind with rfl | rfl
        · exact ⟨hunspent, hl.honest⟩
        · exact hl.honest
  | fire p adv holds due moved books =>
      refine hl.of_out h (h.known p holds).2 (ends_fired _ _ _) books ?_
      intro hunspent
      exact ⟨hunspent, hl.honest⟩
  | relink p adv holds early moved books => exact hl.of_note books hsame hl.honest
  | pass adv still books => exact hl.of_note books hsame hl.honest

end Ledger

theorem ledger_new (clock : Clock) : Ledger (TimerWheel.new clock) := by
  refine ⟨?_, ?_, trivial⟩
  · intro id _
    simp [Spent, TimerWheel.new]
  · intro id hpos hle
    have : id ≤ 0 := hle
    omega

theorem Reachable.ledger {clock : Clock} {w : TimerWheel} (h : Reachable Policy.once clock w) :
    Ledger w :=
  h.induct trivial (ledger_new clock) fun hinv hl heff => hl.effect hinv heff

/-! ## Reading the log -/

section Log

variable {log later earlier : List Event} {id : Nat}

theorem Honest.tail {e : Event} (h : Honest (e :: log)) : Honest log := by
  cases e with
  | cancelled => exact h.2
  | fired => exact h.2
  | refused => exact h.2
  | added => exact h.2
  | drained => exact h
  | removed => exact h
  | destroyed => exact h
  | deleted => exact h
  | called => exact h

theorem Honest.drop (h : Honest (later ++ earlier)) : Honest earlier := by
  induction later with
  | nil => exact h
  | cons e later ih => exact ih h.tail

theorem Honest.pos_of_added {p : Ptr} {payload : Payload} (h : Honest log)
    (hadded : .added id p payload ∈ log) : 0 < id := by
  obtain ⟨later, earlier, rfl⟩ := List.append_of_mem hadded
  exact h.drop.1

/-- Nothing fires once its id is spent. -/
theorem Honest.not_fired (h : Honest (later ++ earlier)) (hspent : Spent earlier id)
    (time : Nat) (payload : Payload) : .fired id time payload ∉ later := by
  intro hmem
  obtain ⟨after, before, rfl⟩ := List.append_of_mem hmem
  rw [List.append_assoc] at h
  exact h.drop.1 (spent_append.mpr (.inr hspent))

theorem Honest.count_le_one (h : Honest log) : log.count (.cancelled id) ≤ 1 := by
  induction log with
  | nil => simp
  | cons e log ih =>
      by_cases he : e = .cancelled id
      · subst he
        have hzero : log.count (.cancelled id) = 0 := by
          rw [List.count_eq_zero]
          exact fun hmem => h.1 ⟨_, hmem, .inr (.inr rfl)⟩
        rw [List.count_cons_self, hzero]
      · rw [List.count_cons_of_ne he]
        exact ih h.tail

end Log

/-! ## The result of a cancel -/

section Result

variable {w : TimerWheel} {id : Nat}

/-- The second cancel of a marked id succeeds like the first. -/
theorem Ledger.not_iff_of_marked (hl : Ledger w) (h : Inv w) (hmark : MarkedInQueue w id) :
    Spent w.log id ∧ (w.cancelTimer id).1 = true ∧ (w.cancelTimerDetach id).1 = true := by
  obtain ⟨hnew, hin⟩ := hmark
  have hid : id ≠ 0 := by omega
  have hmap : w.timerMap id = none := h.unmapped_of_new hnew
  refine ⟨(hl.pending id hnew).mpr hin, ?_, ?_⟩
  · simp [cancelTimer, hid, hmap, hnew]
  · simp [cancelTimerDetach, hid, hmap, hnew]

theorem release_log (w : TimerWheel) (id : Nat) : (w.release id).log = w.log :=
  congrArg Books.log (release_books w id)

theorem dispose_log (w : TimerWheel) (p : Ptr) :
    ∃ plain, (∀ e ∈ plain, Event.Plain e) ∧ (w.dispose p).log = plain ++ w.log := by
  unfold dispose
  cases (w.mem p).coro with
  | none =>
      cases (w.mem p).heap with
      | false => exact ⟨[], by simp, rfl⟩
      | true => exact ⟨[.deleted p], by simp [Event.Plain], rfl⟩
  | some handle =>
      cases (w.mem p).heap with
      | false => exact ⟨[.destroyed handle], by simp [Event.Plain], rfl⟩
      | true => exact ⟨[.deleted p, .destroyed handle], by simp [Event.Plain], rfl⟩

def cancelEvent (result : Bool) (id : Nat) : Event :=
  if result then .cancelled id else .refused id

theorem cancelTimer_log (h : Inv w) (id : Nat) :
    ∃ plain, (∀ e ∈ plain, Event.Plain e) ∧
      (w.cancelTimer id).2.log = plain ++ cancelEvent (w.cancelTimer id).1 id :: w.log := by
  have hnone : ∀ e ∈ ([] : List Event), Event.Plain e := by simp
  unfold cancelTimer
  split
  · exact ⟨[], hnone, rfl⟩
  split
  · split
    · refine ⟨[], hnone, ?_⟩
      dsimp only
      split
      · exact release_log _ id
      · rfl
    · exact ⟨[], hnone, rfl⟩
  · rename_i p hmap
    rw [if_pos (h.active_of_mapped hmap)]
    have hunlink : ((w.touch p).unlink id p).log = w.log :=
      congrArg Books.log (unlink_books h hmap)
    obtain ⟨plain, hplain, hlog⟩ :=
      dispose_log (((w.touch p).unlink id p).record (.cancelled id)) p
    have hrecord : (((w.touch p).unlink id p).record (.cancelled id)).log =
        .cancelled id :: w.log := congrArg (Event.cancelled id :: ·) hunlink
    rw [hrecord] at hlog
    refine ⟨plain, hplain, ?_⟩
    dsimp only
    split
    · exact hlog
    · exact (release_log _ id).trans hlog

theorem cancelTimerDetach_log (h : Inv w) (id : Nat) :
    (w.cancelTimerDetach id).2.log = cancelEvent (w.cancelTimerDetach id).1 id :: w.log := by
  unfold cancelTimerDetach
  split
  · rfl
  split
  · split
    · exact release_log _ id
    · rfl
  · rename_i p hmap
    rw [if_pos (h.active_of_mapped hmap)]
    have hunlink : ((w.touch p).unlink id p).log = w.log :=
      congrArg Books.log (unlink_books h hmap)
    exact (release_log _ id).trans (congrArg (Event.cancelled id :: ·) hunlink)

theorem Honest.tells {log : List Event} {result : Bool}
    (h : Honest (cancelEvent result id :: log)) (hid : id ≠ 0) :
    result = true ↔ ¬Spent log id := by
  cases result with
  | true => exact iff_of_true rfl h.1
  | false => exact iff_of_false Bool.false_ne_true (not_not_intro (h.1 hid))

/-- A cancel that keeps to the policy is the next step of the run, and so is in its log. -/
theorem Reachable.cancelTimer_iff {clock : Clock} (h : Reachable Policy.once clock w)
    (hid : id ≠ 0) (ok : ¬MarkedInQueue w id) :
    (w.cancelTimer id).1 = true ↔ ¬Spent w.log id := by
  have hcall : Call.Ok Policy.once w (.cancelTimer id) := ok
  have hexec : (Call.cancelTimer id).exec clock 0 w = some (w.cancelTimer id).2 := rfl
  obtain ⟨plain, -, hlog⟩ := cancelTimer_log (h.inv trivial) id
  have honest := (h.step hcall hexec).ledger.honest
  rw [hlog] at honest
  exact honest.drop.tells hid

theorem Reachable.cancelTimerDetach_iff {clock : Clock} (h : Reachable Policy.once clock w)
    (hid : id ≠ 0) (ok : ¬MarkedInQueue w id) :
    (w.cancelTimerDetach id).1 = true ↔ ¬Spent w.log id := by
  have hcall : Call.Ok Policy.once w (.cancelTimerDetach id) := ok
  have hexec : (Call.cancelTimerDetach id).exec clock 0 w = some (w.cancelTimerDetach id).2 := rfl
  have honest := (h.step hcall hexec).ledger.honest
  rw [cancelTimerDetach_log (h.inv trivial) id] at honest
  exact honest.tells hid

end Result

/-- What a client may rely on for an id that `addTimer` returned: of its cancels
at most one succeeds, each one succeeds exactly if the timer was not fired,
removed or cancelled before, and the timer does not fire after it. -/
structure OwnedOnce (log : List Event) (id : Nat) : Prop where
  once : log.count (.cancelled id) ≤ 1
  granted : ∀ later earlier, log = later ++ .cancelled id :: earlier →
    ¬Spent earlier id ∧ ∀ time payload, .fired id time payload ∉ later
  refused : ∀ later earlier, log = later ++ .refused id :: earlier → Spent earlier id

def Issued (log : List Event) (id : Nat) : Prop := ∃ p payload, Event.added id p payload ∈ log

theorem Honest.ownedOnce {log : List Event} {id : Nat} (h : Honest log) (hid : id ≠ 0) :
    OwnedOnce log id := by
  refine ⟨h.count_le_one, ?_, ?_⟩
  · rintro later earlier rfl
    have hspent : Spent (.cancelled id :: earlier) id := spent_cons.mpr (.inl (.inr (.inr rfl)))
    exact ⟨h.drop.1, h.not_fired hspent⟩
  · rintro later earlier rfl
    exact h.drop.1 hid

/-- In a run that does not cancel an id again while its marked `ADD` is queued,
every id is owned once; and the next cancel tells the truth exactly if it keeps
to that, too. -/
theorem cancel_owned_once {clock : Clock} {w : TimerWheel} {id : Nat}
    (h : Reachable Policy.once clock w) (hid : Issued w.log id) :
    OwnedOnce w.log id ∧
      (((w.cancelTimer id).1 = true ↔ ¬Spent w.log id) ↔ ¬MarkedInQueue w id) ∧
      (((w.cancelTimerDetach id).1 = true ↔ ¬Spent w.log id) ↔ ¬MarkedInQueue w id) := by
  have hinv := h.inv trivial
  have hl := h.ledger
  obtain ⟨p, payload, hadded⟩ := hid
  have hpos : id ≠ 0 := (hl.honest.pos_of_added hadded).ne'
  refine ⟨hl.honest.ownedOnce hpos, ?_, ?_⟩
  · refine ⟨fun hiff hmark => ?_, h.cancelTimer_iff hpos⟩
    obtain ⟨hspent, htrue, -⟩ := hl.not_iff_of_marked hinv hmark
    exact hiff.mp htrue hspent
  · refine ⟨fun hiff hmark => ?_, h.cancelTimerDetach_iff hpos⟩
    obtain ⟨hspent, -, htrue⟩ := hl.not_iff_of_marked hinv hmark
    exact hiff.mp htrue hspent

/-- The short run, with its timer cancelled while the `ADD` is queued. -/
def shortCancelled : TimerWheel := (shortAdded.cancelTimer 1).2

theorem shortCancelled_reachable {policy : Policy} (ok : policy.cancel shortAdded 1) :
    Reachable policy shortClock shortCancelled := by
  have hcall : Call.Ok policy shortAdded (.cancelTimer 1) := ok
  have hrun : (Call.cancelTimer 1).exec shortClock 0 shortAdded = some shortCancelled := rfl
  exact .step shortAdded_reachable hcall hrun

theorem shortCancelled_log : shortCancelled.log = [.cancelled 1, .added 1 0 (.raw 7 9)] := rfl

theorem shortCancelled_issued : Issued shortCancelled.log 1 :=
  ⟨0, .raw 7 9, by simp [shortCancelled_log]⟩

theorem shortCancelled_owned_once :
    Issued shortCancelled.log 1 ∧ OwnedOnce shortCancelled.log 1 ∧
      shortCancelled.log.count (.cancelled 1) = 1 := by
  have hnew : ¬MarkedInQueue shortAdded 1 := by
    rintro ⟨-, hmark⟩
    exact absurd hmark (by decide)
  have hrun : Reachable Policy.once shortClock shortCancelled := shortCancelled_reachable hnew
  exact ⟨shortCancelled_issued, (cancel_owned_once hrun shortCancelled_issued).1, by decide⟩

/-- Cancelled again before the tick that drains its `ADD`, the id is given away
twice. -/
theorem cancel_twice_owned_twice :
    ¬∀ (clock : Clock) (w : TimerWheel) (id : Nat), Reachable Policy.any clock w →
      Issued w.log id → OwnedOnce w.log id := by
  intro hall
  have hrun : (Call.cancelTimer 1).exec shortClock 0 shortCancelled =
      some (shortCancelled.cancelTimer 1).2 := rfl
  have hcall : Call.Ok Policy.any shortCancelled (.cancelTimer 1) := trivial
  have hreach := Reachable.step (shortCancelled_reachable trivial) hcall hrun
  have hlog : (shortCancelled.cancelTimer 1).2.log = .cancelled 1 :: shortCancelled.log := rfl
  have hissued : Issued (shortCancelled.cancelTimer 1).2.log 1 := by
    obtain ⟨p, payload, hmem⟩ := shortCancelled_issued
    exact ⟨p, payload, by rw [hlog]; exact List.mem_cons_of_mem _ hmem⟩
  have honce := (hall shortClock _ 1 hreach hissued).once
  rw [hlog] at honce
  exact absurd honce (by decide)

end Uvent.Timers
