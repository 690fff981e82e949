import Uvent.Queue.MpmcPlaces
import Uvent.Queue.SegmentedPlaces
import Uvent.Sync.CallSeats

/-!
# The queues of the channels

Whatever coroutines do to a channel, its queue goes through a run of `MPMCQueue` or
`SegmentedMPMCQueue`, in which a coroutine is in a call exactly while an attempt at an
operation of the channel is.
-/

namespace Uvent.Sync.Primitives

open Uvent.Lib Uvent.Queue Uvent.Sync.Suspension

variable {α : Type}

namespace Queue

def places : Queue α → PlaceLog Nat α
  | .ring _ w => w.shared.places
  | .chain size w => w.shared.places size

def Doing (t : Nat) : Queue α → Job α → Prop
  | .ring _ w, j => (w.own t).job = j
  | .chain _ w, j => Segmented.Doing t (w.own t) j

def placed (t : Nat) : Queue α → Bool
  | .ring _ w =>
      match (w.own t).job with
      | .put _ done => done
      | _ => false
  | .chain _ w => (w.own t).placed

def Reached : Queue α → Prop
  | .ring cap w => 2 ≤ cap ∧ Mpmc.Runs cap w
  | .chain size w => 2 ≤ size ∧ Segmented.Runs size w

/-- `try_dequeue` of a `SegmentedMPMCQueue` finds nothing only when nothing is there. -/
def Sharp : Queue α → Prop
  | .ring .. => False
  | .chain .. => True

end Queue

def resultOf : Reply α → Mpmc.Result α
  | .sent ok => .enqueued ok
  | .empty => .empty
  | .taken v => .taken (some v)

namespace Queue

variable {q : Queue α} {t : Nat} {j : Job α}

structure Takes (t : Nat) (q q' : Queue α) (j' : Job α) : Prop where
  span : q'.span = q.span
  reached : q'.Reached
  doing : q'.Doing t j'
  others : ∀ u j, u ≠ t → (q'.Doing u j ↔ q.Doing u j)

theorem own_update {β : Type} {own : Nat → β} {u : Nat} {pc : β} (hu : u ≠ t) :
    Function.update own t pc u = own u := Function.update_of_ne hu ..

theorem enqueue_takes (h : q.Reached) (hrest : q.Doing t .rest) (v : α) :
    q.Takes t (q.enqueue t v) (.put v false) ∧ (q.enqueue t v).places = q.places := by
  cases q with
  | ring cap w =>
    obtain ⟨r, hret⟩ : ∃ r, w.own t = .ret r := by
      change (w.own t).job = .rest at hrest
      cases hpc : w.own t with
      | ret r => exact ⟨r, rfl⟩
      | _ =>
        rw [hpc] at hrest
        cases hrest
    refine ⟨⟨rfl, ⟨h.1, Mpmc.runs_call h.2 t (.tryEnqueue v) hret⟩, ?_, fun u j hu => ?_⟩, rfl⟩
    · change Mpmc.Pc.job (Function.update w.own t _ t) = _
      rw [Function.update_self]
      rfl
    · change Mpmc.Pc.job (Function.update w.own t _ u) = j ↔ _
      rw [own_update hu]
      rfl
  | chain size w =>
    have hidle : w.own t = .idle := (Segmented.Doing.rest_iff hrest).mp rfl
    refine ⟨⟨rfl, ⟨h.1, Segmented.runs_call h.2 t (.enqueue v) hidle⟩, ?_, fun u j hu => ?_⟩, rfl⟩
    · change Segmented.Doing t (Function.update w.own t _ t) _
      rw [Function.update_self]
      exact .protectTail _ v
    · change Segmented.Doing u (Function.update w.own t _ u) j ↔ _
      rw [own_update hu]
      rfl

theorem dequeue_takes (h : q.Reached) (hrest : q.Doing t .rest) :
    q.Takes t (q.dequeue t) .take ∧ (q.dequeue t).places = q.places := by
  cases q with
  | ring cap w =>
    obtain ⟨r, hret⟩ : ∃ r, w.own t = .ret r := by
      change (w.own t).job = .rest at hrest
      cases hpc : w.own t with
      | ret r => exact ⟨r, rfl⟩
      | _ =>
        rw [hpc] at hrest
        cases hrest
    refine ⟨⟨rfl, ⟨h.1, Mpmc.runs_call h.2 t .tryDequeue hret⟩, ?_, fun u j hu => ?_⟩, rfl⟩
    · change Mpmc.Pc.job (Function.update w.own t _ t) = _
      rw [Function.update_self]
      rfl
    · change Mpmc.Pc.job (Function.update w.own t _ u) = j ↔ _
      rw [own_update hu]
      rfl
  | chain size w =>
    have hidle : w.own t = .idle := (Segmented.Doing.rest_iff hrest).mp rfl
    refine ⟨⟨rfl, ⟨h.1, Segmented.runs_call h.2 t .tryDequeue hidle⟩, ?_, fun u j hu => ?_⟩, rfl⟩
    · change Segmented.Doing t (Function.update w.own t _ t) _
      rw [Function.update_self]
      exact .protectHead
    · change Segmented.Doing u (Function.update w.own t _ u) j ↔ _
      rw [own_update hu]
      rfl

theorem rest_of_reply {sharp : Prop} {L L' : PlaceLog Nat α} {j j' : Job α} {r : Option (Reply α)}
    (h : L.Moves sharp t j r L' j') (hj : j ≠ .rest) : r = none ↔ j' ≠ .rest := by
  cases h with
  | same => exact iff_of_true rfl hj
  | puts | claims => exact iff_of_true rfl nofun
  | sent | full | empty | gives => exact iff_of_false nofun fun h => h rfl

/-- What a call of a ring returns is what its last step tells. -/
theorem ring_answer {cap : Nat} {w : World Nat (Mpmc.Ring α) (Mpmc.Pc α)} {spurious : Bool}
    (h : (Mpmc.exec cap t spurious w.shared (w.own t)).2.reply = none ↔
      (Mpmc.exec cap t spurious w.shared (w.own t)).2.job ≠ .rest) :
    (step t spurious (.ring cap w)).1 =
      (Mpmc.exec cap t spurious w.shared (w.own t)).2.reply.map resultOf := by
  unfold step
  dsimp only
  generalize (Mpmc.exec cap t spurious w.shared (w.own t)).2 = pc at h ⊢
  cases pc with
  | ret r =>
    have hne : r.reply ≠ none := fun hnone => h.mp hnone rfl
    cases r with
    | none => exact absurd rfl hne
    | enqueued ok => rfl
    | empty => rfl
    | taken out =>
      cases out with
      | none => exact absurd rfl hne
      | some v => rfl
  | _ => rfl

theorem chain_answer {size : Nat} {w : World Nat (Segmented.Chain α) (Segmented.Pc α)}
    {spurious : Bool} {j' : Job α}
    (hdoing : Segmented.Doing t (Segmented.exec size t spurious w.shared (w.own t)).2 j')
    (h : (w.own t).reply w.shared (Segmented.exec size t spurious w.shared (w.own t)).2 = none ↔
      j' ≠ .rest) :
    (step t spurious (.chain size w)).1 = ((w.own t).reply w.shared
      (Segmented.exec size t spurious w.shared (w.own t)).2).map resultOf := by
  unfold step
  dsimp only
  generalize (Segmented.exec size t spurious w.shared (w.own t)).2 = pc' at h hdoing ⊢
  cases hdoing with
  | idle =>
    have hne : (w.own t).reply w.shared .idle ≠ none := fun hnone => h.mp hnone rfl
    generalize w.own t = pc at hne ⊢
    cases pc with
    | consume max k i stop out =>
      change some (Mpmc.Result.taken _) =
        (Option.map Reply.taken ((w.shared.segs k).storage i)).map resultOf
      change Option.map Reply.taken ((w.shared.segs k).storage i) ≠ none at hne
      cases hstorage : (w.shared.segs k).storage i with
      | none =>
        rw [hstorage] at hne
        exact absurd rfl hne
      | some v => rfl
    | _ => rfl
  | _ => rfl

theorem step_moves (h : q.Reached) (hdoing : q.Doing t j) (hj : j ≠ .rest) (spurious : Bool) :
    ∃ j' r, q.Takes t (q.step t spurious).2 j' ∧ (q.step t spurious).1 = r.map resultOf ∧
      q.places.Moves q.Sharp t j r (q.step t spurious).2.places j' := by
  cases q with
  | ring cap w =>
    obtain ⟨hcap, hruns⟩ := h
    obtain ⟨stage, hholds⟩ := Mpmc.holds_of_runs hcap hruns
    change (w.own t).job = j at hdoing
    subst hdoing
    have hmoves := hholds.moves (t := t) (by omega) spurious rfl hj
    refine ⟨_, _, ⟨rfl, ⟨hcap, ?_⟩, ?_, fun u j hu => ?_⟩, ?_, hmoves⟩
    · exact .step hruns (.run spurious _ (Mpmc.Pc.busy_of_job hj))
    · change Mpmc.Pc.job (Function.update w.own t _ t) = _
      rw [Function.update_self]
    · change Mpmc.Pc.job (Function.update w.own t _ u) = j ↔ _
      rw [own_update hu]
      rfl
    · exact ring_answer (rest_of_reply hmoves hj)
  | chain size w =>
    obtain ⟨hsize, hruns⟩ := h
    obtain ⟨hs, hown⟩ := (Segmented.segmentedThreads (by omega : 0 < size)).holds hruns
    obtain ⟨j', hdoing', hmoves⟩ := Segmented.moved_exec hs (by omega) (hown t)
      (Segmented.seen_of_runs (by omega) hruns t) hdoing hj spurious
    have hbusy : w.own t ≠ .idle := fun hidle =>
      hj ((Segmented.Doing.rest_iff hdoing).mpr hidle)
    refine ⟨j', _, ⟨rfl, ⟨hsize, ?_⟩, ?_, fun u j hu => ?_⟩, ?_, hmoves⟩
    · exact .step hruns (.run spurious _ hbusy)
    · change Segmented.Doing t (Function.update w.own t _ t) _
      rw [Function.update_self]
      exact hdoing'
    · change Segmented.Doing u (Function.update w.own t _ u) j ↔ _
      rw [own_update hu]
      rfl
    · exact chain_answer hdoing' (rest_of_reply hmoves hj)

theorem placed_put {v : α} {d : Bool} (h : q.Doing t (.put v d)) : q.placed t = d := by
  cases q with
  | ring cap w =>
    change (w.own t).job = _ at h
    rw [placed, h]
  | chain size w => exact Segmented.Doing.placed h

theorem done_eq {v v' : α} {d d' : Bool} (h : q.Doing t (.put v d)) (h' : q.Doing t (.put v' d')) :
    d = d' := (placed_put h).symm.trans (placed_put h')

/-- An element that was claimed and not given is with a receiver. -/
theorem takes_of_held (h : q.Reached) {x c : Nat} (hput : q.places.put x ≠ none)
    (htaker : q.places.taker x = some c) (hgiven : q.places.given x = none)
    (hdoing : q.Doing c j) : j = .take := by
  cases q with
  | ring cap w =>
    obtain ⟨stage, hholds⟩ := Mpmc.holds_of_runs h.1 h.2
    exact hdoing.symm.trans (hholds.takes hput htaker hgiven)
  | chain size w =>
    have hsize : 0 < size := by
      have := h.1
      omega
    obtain ⟨-, hown⟩ := (Segmented.segmentedThreads hsize).holds h.2
    exact Segmented.takes_of_own hown hput htaker hgiven hdoing

end Queue

/-! ### The coroutines in the queues -/

inductive Role (α : Type) where
  | out
  | sends (v : α)
  | receives
  deriving DecidableEq, Repr

def Role.Fits (t n : Nat) : Role α → Job (Item α) → Prop
  | .out, j => j = .rest
  | .sends v, j => ∃ done, j = .put ⟨t, n, v⟩ done
  | .receives, j => j = .take

def Op.role (c : Nat) : Op α → Role α
  | .send d v => if d = c then .sends v else .out
  | .recv d => if d = c then .receives else .out
  | _ => .out

def Pc.role (c : Nat) : Pc α → Role α
  | .trying ctx k .queue =>
      match ctx.call.ops[ctx.index k]? with
      | some op => op.role c
      | none => .out
  | _ => .out

theorem Pc.role_queue {ctx : Ctx α} {k c : Nat} {op : Op α}
    (hop : ctx.call.ops[ctx.index k]? = some op) : (Pc.trying ctx k .queue).role c = op.role c := by
  simp only [Pc.role, hop]

theorem Pc.role_of_ne {ctx : Ctx α} {k c : Nat} {p : TryPc} (hp : p ≠ .queue) :
    (Pc.trying ctx k p).role c = .out := by
  cases p with
  | queue => exact absurd rfl hp
  | _ => rfl

theorem Op.role_of_channel {op : Op α} {c : Nat} (h : op.channel .queue ≠ some c) :
    op.role c = .out := by
  cases op with
  | send d v | recv d =>
    refine if_neg ?_
    rintro rfl
    exact h rfl
  | wait | acquire | sleep => rfl

theorem Op.start_ne (op : Op α) (full : Bool) : op.start full ≠ .queue := by
  cases op with
  | send => cases full <;> nofun
  | recv | wait | acquire | sleep => nofun

@[simp] theorem Ctx.role_attempt (ctx : Ctx α) (k c : Nat) : (ctx.attempt k).role c = .out := by
  rw [Ctx.attempt]
  split
  · exact Pc.role_of_ne (Op.start_ne _ _)
  · rfl

@[simp] theorem Ctx.role_failed (ctx : Ctx α) (k c : Nat) : (ctx.failed k).role c = .out := by
  rw [Ctx.failed]
  split
  · exact Ctx.role_attempt ctx (k + 1) c
  · split <;> rfl

theorem Ctx.settleOp_call (ctx : Ctx α) (w : Words α) (op : Op α) (next : Next α) :
    (ctx.settleOp w op next).call = ctx.call ∧ (ctx.settleOp w op next).start = ctx.start := by
  rw [Ctx.settleOp]
  split
  · split <;> exact ⟨rfl, rfl⟩
  · exact ⟨rfl, rfl⟩

def State.Embedded (s : State α) : Prop :=
  ∀ c, (s.words.channels c).queue.Reached ∧
    ∀ t, ∃ j, (s.words.channels c).queue.Doing t j ∧ ((s.pcs t).role c).Fits t (s.calls t) j

theorem embedded_new {w : Words α} (hw : w.New) : (State.new w).Embedded := by
  intro c
  obtain ⟨cap, hcap, hqueue⟩ | ⟨size, hsize, hqueue⟩ := hw.queue c
  · change (w.channels c).queue.Reached ∧ ∀ t, ∃ j, (w.channels c).queue.Doing t j ∧ _
    rw [hqueue]
    exact ⟨⟨hcap, .start⟩, fun t => ⟨.rest, rfl, rfl⟩⟩
  · change (w.channels c).queue.Reached ∧ ∀ t, ∃ j, (w.channels c).queue.Doing t j ∧ _
    rw [hqueue]
    exact ⟨⟨hsize, .start⟩, fun t => ⟨.rest, .idle, rfl⟩⟩

namespace State.Embedded

variable {s s' : State α} {t : Nat}

theorem goes (h : s.Embedded) {pc : Pc α} (hold : ∀ c, (s.pcs t).role c = .out)
    (hnew : ∀ c, pc.role c = .out) (hpcs : s'.pcs = Function.update s.pcs t pc)
    (hqueues : ∀ c, (s'.words.channels c).queue = (s.words.channels c).queue)
    (hcalls : ∀ u, u ≠ t → s'.calls u = s.calls u) : s'.Embedded := by
  intro c
  obtain ⟨hreached, hjobs⟩ := h c
  rw [hqueues]
  refine ⟨hreached, fun u => ?_⟩
  obtain ⟨j, hdoing, hfits⟩ := hjobs u
  refine ⟨j, hdoing, ?_⟩
  by_cases hu : u = t
  · subst hu
    rw [hpcs, Function.update_self, hnew]
    rw [hold] at hfits
    exact hfits
  · rw [hpcs, Function.update_of_ne hu, hcalls u hu]
    exact hfits

theorem within (h : s.Embedded) (hpcs : s'.pcs = s.pcs) (hwords : s'.words = s.words)
    (hcalls : s'.calls = s.calls) : s'.Embedded := by
  intro c
  rw [hpcs, hwords, hcalls]
  exact h c

theorem takes (h : s.Embedded) {c : Nat} {pc : Pc α} {q : Queue (Item α)} {j : Job (Item α)}
    (htakes : (s.words.channels c).queue.Takes t q j)
    (hold : ∀ d, d ≠ c → (s.pcs t).role d = .out) (hnew : ∀ d, d ≠ c → pc.role d = .out)
    (hfits : (pc.role c).Fits t (s.calls t) j) (hpcs : s'.pcs = Function.update s.pcs t pc)
    (hwords : s'.words.channels = (s.words.setQueue c q).channels) (hcalls : s'.calls = s.calls) :
    s'.Embedded := by
  intro d
  rw [hwords, hcalls, hpcs]
  by_cases hd : d = c
  · subst hd
    rw [Words.setQueue_self]
    refine ⟨htakes.reached, fun u => ?_⟩
    by_cases hu : u = t
    · subst hu
      rw [Function.update_self]
      exact ⟨j, htakes.doing, hfits⟩
    · rw [Function.update_of_ne hu]
      obtain ⟨i, hdoing, hu'⟩ := (h d).2 u
      exact ⟨i, (htakes.others u i hu).mpr hdoing, hu'⟩
  · rw [Words.setQueue_of_ne q hd]
    refine ⟨(h d).1, fun u => ?_⟩
    by_cases hu : u = t
    · subst hu
      rw [Function.update_self, hnew d hd]
      obtain ⟨i, hdoing, hi⟩ := (h d).2 u
      rw [hold d hd] at hi
      exact ⟨i, hdoing, hi⟩
    · rw [Function.update_of_ne hu]
      exact (h d).2 u

end State.Embedded

def Ctx.afterSend (ctx : Ctx α) (w : Words α) (k c : Nat) (v : α) : Option (Reply (Item α)) → Pc α
  | none => .trying ctx k .queue
  | some (.sent true) => .waking ctx [(.recv c, some 1)] false (.done (ctx.index k) (.sent true))
  | some _ => (ctx.settleOp w (.send c v) .fail).failed k

def Ctx.afterRecv (ctx : Ctx α) (w : Words α) (k c : Nat) : Option (Reply (Item α)) → Pc α
  | none => .trying ctx k .queue
  | some (.taken it) =>
      .waking ctx (((w.channels c).queue.freed c).toList.map fun l => (l, some 1)) false
        (.done (ctx.index k) (.received (some it)))
  | some _ =>
      if ctx.call.full then .trying (ctx.settleOp w (.recv c) (.more .drainedClosed)) k .drainedClosed
      else (ctx.settleOp w (.recv c) .fail).failed k

section Attempts

variable {s : State α} {t c k : Nat} {ctx : Ctx α} {spurious : Bool} {r : Option (Reply (Item α))}

theorem attempt_enterSend (v : α) : s.attempt t ctx k (.send c v) .enter spurious =
    { s.setPc t (.trying ctx k .queue) with
      words := s.words.setQueue c ((s.words.channels c).queue.enqueue t ⟨t, s.calls t, v⟩) } := rfl

theorem attempt_enterRecv : s.attempt t ctx k (.recv c) .enter spurious =
    { s.setPc t (.trying ctx k .queue) with
      words := s.words.setQueue c ((s.words.channels c).queue.dequeue t) } := rfl

theorem attempt_send {v : α} (hr : ((s.words.channels c).queue.step t spurious).1 = r.map resultOf) :
    s.attempt t ctx k (.send c v) .queue spurious =
      { s.setPc t (ctx.afterSend s.words k c v r) with
        words := s.words.setQueue c ((s.words.channels c).queue.step t spurious).2 } := by
  simp only [State.attempt, Op.tryStep, hr]
  cases r with
  | none => rfl
  | some r =>
    cases r with
    | sent ok => cases ok <;> rfl
    | empty | taken => rfl

theorem attempt_recv (hr : ((s.words.channels c).queue.step t spurious).1 = r.map resultOf) :
    s.attempt t ctx k (.recv c) .queue spurious =
      { s.setPc t (ctx.afterRecv s.words k c r) with
        words := s.words.setQueue c ((s.words.channels c).queue.step t spurious).2 } := by
  simp only [State.attempt, Op.tryStep, hr]
  cases r with
  | none => rfl
  | some r =>
    cases r with
    | taken it => rfl
    | sent ok | empty =>
      rw [Ctx.afterRecv]
      · cases ctx.call.full <;> rfl
      · rintro it ⟨⟩

end Attempts

end Uvent.Sync.Primitives
