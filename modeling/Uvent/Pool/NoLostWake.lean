import Uvent.Pool.CrossThread

/-!
# No hand-over is missed

A thread sets the flag of a queue after its push and then wakes the worker.  A wake
that is skipped because another is pending relies on the worker clearing
`wake_pending` before it looks at the flags.  So a flag that is set while the worker
is past it comes with a wake, and a queue whose flag is not set is empty or in the
middle of a push.
-/

namespace Uvent.Pool

open Uvent.Lib Uvent.Queue Uvent.Queue.Intrusive

variable {α : Type}

/-! ## The queues by themselves -/

def boxPc (b : Box) : PusherPc α → PushPc
  | .push b' pc => if b' = b then pc else .idle
  | _ => .idle

def boxWorld (b : Box) (w : System α) : Intrusive.System :=
  ⟨w.shared.box b, fun t => boxPc b (w.own t)⟩

def pusherOps : PusherPc α → Segmented.Pc α
  | .enqueue pc => pc
  | _ => .idle

def workerOps : WorkerPc α → Segmented.Pc α
  | .bulk pc => pc
  | _ => .idle

def opsWorld (w : System α) : World Nat (Segmented.Chain α) (Segmented.Pc α) :=
  ⟨w.shared.ops, fun
    | 0 => workerOps w.shared.worker
    | t + 1 => pusherOps (w.own t)⟩

section Queues

variable {size : Nat} {w w' : System α} {b b' : Box} {t : Nat} {s : Storage α} {pc : PusherPc α}

theorem boxWorld_update (b : Box) (own : Nat → PusherPc α) :
    boxWorld b ⟨s, Function.update own t pc⟩ =
      ⟨s.box b, Function.update (fun t => boxPc b (own t)) t (boxPc b pc)⟩ := by
  refine congrArg (World.mk _) (funext fun t' => ?_)
  by_cases ht : t' = t
  · subst ht
    simp
  · simp [Function.update_of_ne ht]

theorem boxWorld_same (hbox : s.box b = w.shared.box b) (hpc : boxPc b pc = boxPc b (w.own t)) :
    boxWorld b ⟨s, Function.update w.own t pc⟩ = boxWorld b w := by
  rw [boxWorld_update, hbox, hpc, Function.update_eq_self]
  rfl

theorem setBox_self (s : Storage α) (b : Box) (q : MpscQueue) : (s.setBox b q).box b = q :=
  Function.update_self ..

theorem setBox_of_ne (s : Storage α) (q : MpscQueue) (h : b ≠ b') :
    (s.setBox b' q).box b = s.box b := Function.update_of_ne h ..

theorem boxPc_push_self (b : Box) (pc : PushPc) : boxPc b (.push b pc : PusherPc α) = pc :=
  if_pos rfl

theorem boxPc_push_of_ne (h : b ≠ b') (pc : PushPc) :
    boxPc b (.push b' pc : PusherPc α) = .idle := if_neg h.symm

theorem PushStep.box (hstep : PushStep size w.shared t (w.own t) s pc)
    (h : Intrusive.Runs (boxWorld b w)) :
    Intrusive.Runs (boxWorld b ⟨s, Function.update w.own t pc⟩) := by
  generalize hown : w.own t = old at hstep
  -- what a step into the queue `b'` is for `b`
  have hinto : ∀ {b' : Box} {q : MpscQueue} {new : PusherPc α},
      (b = b' → Intrusive.Step (boxWorld b w)
        ⟨q, Function.update (fun t => boxPc b (w.own t)) t (boxPc b new)⟩) →
      (b ≠ b' → boxPc b new = boxPc b old) →
      Intrusive.Runs (boxWorld b ⟨w.shared.setBox b' q, Function.update w.own t new⟩) := by
    intro b' q new hsame hother
    by_cases hb : b = b'
    · subst hb
      rw [boxWorld_update, setBox_self]
      exact h.step (hsame rfl)
    · rw [boxWorld_same (setBox_of_ne _ _ hb) (by rw [hown, hother hb])]
      exact h
  have hkeep : ∀ {s : Storage α} {new : PusherPc α}, s.box b = w.shared.box b →
      boxPc b new = boxPc b old →
      Intrusive.Runs (boxWorld b ⟨s, Function.update w.own t new⟩) := by
    intro s new hbox hpc
    rw [boxWorld_same hbox (by rw [hown, hpc])]
    exact h
  cases hstep with
  | push b' n hn =>
      refine hinto ?_ fun hb => boxPc_push_of_ne hb _
      rintro rfl
      rw [boxPc_push_self]
      exact .push t n (by simp [boxWorld, hown, boxPc]) hn
  | exchange b' n =>
      refine hinto ?_ fun hb => by rw [boxPc_push_of_ne hb, boxPc_push_of_ne hb]
      rintro rfl
      rw [boxPc_push_self]
      exact .exchange t n (by simp [boxWorld, hown, boxPc])
  | link b' n prev =>
      refine hinto ?_ fun hb => by rw [boxPc_push_of_ne hb]; rfl
      rintro rfl
      exact .link t n prev (by simp [boxWorld, hown, boxPc])
  | setAdded b' => exact hkeep rfl rfl
  | call op => exact hkeep rfl rfl
  | enqueue pc spurious busy =>
      refine hkeep rfl ?_
      unfold afterEnqueue
      split <;> rfl
  | setSockOps => exact hkeep rfl rfl
  | wakePoller => exact hkeep rfl rfl
  | wake =>
      refine hkeep rfl ?_
      split <;> rfl
  | write => exact hkeep rfl rfl

theorem PushStep.worker {old : PusherPc α} {s₀ : Storage α} (hstep : PushStep size s₀ t old s pc) :
    s.worker = s₀.worker := by
  cases hstep <;> rfl

theorem PushStep.pop {old : PusherPc α} {s₀ : Storage α} (hstep : PushStep size s₀ t old s pc)
    (b : Box) : (s.box b).pop = (s₀.box b).pop := by
  have hset : ∀ (b' : Box) (q : MpscQueue), q.pop = (s₀.box b').pop →
      ((s₀.setBox b' q).box b).pop = (s₀.box b).pop := by
    intro b' q hq
    by_cases hb : b = b'
    · subst hb
      rw [setBox_self, hq]
    · rw [setBox_of_ne _ _ hb]
  cases hstep with
  | push b' n hn => exact hset b' _ rfl
  | exchange b' n => exact hset b' _ rfl
  | link b' n prev => exact hset b' _ rfl
  | _ => rfl

theorem boxWorld_setBox {q : MpscQueue} (b' : Box) (h : Intrusive.Runs (boxWorld b w))
    (hstep : b = b' → Intrusive.Step (boxWorld b w) { boxWorld b w with shared := q })
    (hbox : s.box = (w.shared.setBox b' q).box) : Intrusive.Runs (boxWorld b { w with shared := s }) := by
  by_cases hb : b = b'
  · subst hb
    have heq : boxWorld b { w with shared := s } = { boxWorld b w with shared := q } := by
      unfold boxWorld
      rw [hbox, setBox_self]
    rw [heq]
    exact h.step (hstep rfl)
  · have heq : boxWorld b { w with shared := s } = boxWorld b w := by
      unfold boxWorld
      rw [hbox, setBox_of_ne _ _ hb]
    rw [heq]
    exact h

/-- A run of the storage is one of each intrusive queue, and `pop` is under way only in
the loop that empties the queue. -/
theorem boxRuns (h : Runs size w) (b : Box) :
    Intrusive.Runs (boxWorld b w) ∧
      ((∀ b', w.shared.worker = .popping b' → b' ≠ b) → (w.shared.box b).pop = .idle) := by
  induction h with
  | start => exact ⟨.start, fun _ => rfl⟩
  | @step w w' _ hstep ih =>
      obtain ⟨hruns, hidle⟩ := ih
      cases hstep with
      | push hstep =>
          refine ⟨hstep.box hruns, fun hw => ?_⟩
          have hworker := hstep.worker
          exact (hstep.pop b).trans (hidle (hworker ▸ hw))
      | worker hstep =>
          cases hstep with
          | woken hw | timeout hw | read hw | clear hw | work hw | callBulk hw | bulk _ _ hw =>
              exact ⟨hruns, fun _ => hidle (by simp [hw])⟩
          | takeFlag b' hw =>
              have hpop := hidle (by simp [hw])
              split
              · refine ⟨boxWorld_setBox b' hruns ?_ rfl, fun hother => ?_⟩
                · rintro rfl
                  exact .pop hpop
                · exact (congrArg MpscQueue.pop (setBox_of_ne _ _ (hother b' rfl).symm)).trans hpop
              · exact ⟨hruns, fun _ => hpop⟩
          | popStep b' hw hpop =>
              refine ⟨boxWorld_setBox b' hruns ?_ rfl, fun hother => ?_⟩
              · rintro rfl
                exact .popStep hpop
              · have hb : b' ≠ b := hother b' hw
                exact (congrArg MpscQueue.pop (setBox_of_ne _ _ hb.symm)).trans
                  (hidle (by simp [hw, hb]))
          | popped b' hw hpop =>
              split
              · refine ⟨boxWorld_setBox b' hruns ?_ rfl, fun hother => ?_⟩
                · rintro rfl
                  exact .pop hpop
                · have hb : b' ≠ b := hother b' hw
                  exact (congrArg MpscQueue.pop (setBox_of_ne _ _ hb.symm)).trans
                    (hidle (by simp [hw, hb]))
              · refine ⟨hruns, fun _ => ?_⟩
                by_cases hb : b' = b
                · exact hb ▸ hpop
                · exact hidle (by simp [hw, hb])
          | takeOps hw =>
              split <;> exact ⟨hruns, fun _ => hidle (by simp [hw])⟩

theorem opsWorld_pusher (own : Nat → PusherPc α) (hworker : workerOps s.worker = workerOps w.shared.worker) :
    opsWorld ⟨s, Function.update own t pc⟩ =
      ⟨s.ops, Function.update (opsWorld ⟨w.shared, own⟩).own (t + 1) (pusherOps pc)⟩ := by
  refine congrArg (World.mk _) (funext fun t' => ?_)
  cases t' with
  | zero => simpa [opsWorld] using hworker
  | succ t' =>
      by_cases ht : t' = t
      · subst ht
        simp
      · have ht' : t' + 1 ≠ t + 1 := by omega
        rw [Function.update_of_ne ht']
        simp [opsWorld, Function.update_of_ne ht]

theorem opsWorld_worker :
    opsWorld { w with shared := s } =
      ⟨s.ops, Function.update (opsWorld w).own 0 (workerOps s.worker)⟩ := by
  refine congrArg (World.mk _) (funext fun t' => ?_)
  cases t' with
  | zero => simp
  | succ t' => simp [opsWorld]

theorem workerOps_afterBulk (pc pc' : Segmented.Pc α) : workerOps (afterBulk pc pc') = pc' := by
  cases pc' with
  | idle =>
      unfold afterBulk
      dsimp only
      split <;> rfl
  | _ => rfl

theorem pusherOps_afterEnqueue (pc : Segmented.Pc α) : pusherOps (afterEnqueue pc) = pc := by
  cases pc <;> rfl

theorem opsRuns (h : Runs size w) : Segmented.Runs size (opsWorld w) := by
  induction h with
  | start =>
      have heq : opsWorld (⟨.new, fun _ => .idle⟩ : System α) = ⟨.new, fun _ => .idle⟩ := by
        refine congrArg (World.mk _) (funext fun t => ?_)
        cases t <;> rfl
      rw [heq]
      exact .start
  | @step w w' _ hstep ih =>
      cases hstep with
      | @push t s pc hstep =>
          have heq : opsWorld ⟨s, Function.update w.own t pc⟩ =
              ⟨s.ops, Function.update (opsWorld w).own (t + 1) (pusherOps pc)⟩ :=
            opsWorld_pusher w.own (by rw [hstep.worker])
          rw [heq]
          generalize hown : w.own t = old at hstep
          have hpc : (opsWorld w).own (t + 1) = pusherOps old := congrArg pusherOps hown
          have hsame : ∀ (s : Storage α) (pc : PusherPc α), s.ops = w.shared.ops →
              pusherOps pc = pusherOps old → Segmented.Runs size
                ⟨s.ops, Function.update (opsWorld w).own (t + 1) (pusherOps pc)⟩ := by
            intro s pc hops heq
            rw [hops, heq, ← hpc, Function.update_eq_self]
            exact ih
          cases hstep with
          | call op =>
              refine .step ih ?_
              rw [hpc]
              exact .call (.enqueue op)
          | enqueue pc spurious busy =>
              rw [pusherOps_afterEnqueue]
              refine .step ih ?_
              rw [hpc]
              exact .run spurious pc busy
          | wake => exact hsame _ _ rfl (by split <;> rfl)
          | _ => exact hsame _ _ rfl rfl
      | worker hstep =>
          rw [opsWorld_worker]
          have hpc : (opsWorld w).own 0 = workerOps w.shared.worker := rfl
          have hsame : ∀ s : Storage α, s.ops = w.shared.ops →
              workerOps s.worker = workerOps w.shared.worker → Segmented.Runs size
                ⟨s.ops, Function.update (opsWorld w).own 0 (workerOps s.worker)⟩ := by
            intro s hops heq
            rw [hops, heq, ← hpc, Function.update_eq_self]
            exact ih
          have hafter : ∀ b, workerOps (afterBox b : WorkerPc α) = .idle := by
            intro b
            cases b <;> rfl
          cases hstep with
          | woken hw | timeout hw | read hw | clear hw | work hw =>
              exact hsame _ rfl (by rw [hw]; rfl)
          | takeFlag b hw =>
              split
              · exact hsame _ rfl (by rw [hw]; rfl)
              · exact hsame _ rfl (by rw [hw]; exact hafter b)
          | popStep b hw hpop => exact hsame _ rfl rfl
          | popped b hw hpop =>
              split
              · exact hsame _ rfl rfl
              · exact hsame _ rfl (by rw [hw]; exact hafter b)
          | takeOps hw => split <;> exact hsame _ rfl (by rw [hw]; rfl)
          | callBulk hw =>
              refine .step ih ?_
              rw [hpc, hw]
              exact .call (.tryDequeueBulk 64)
          | bulk pc spurious hw busy =>
              rw [workerOps_afterBulk]
              refine .step ih ?_
              rw [hpc, hw]
              exact .run spurious pc busy

end Queues

/-! ## What the flags say about the queues -/

def midway (b : Box) : PusherPc α → Bool
  | .push b' (.link _ _) | .setAdded b' => decide (b' = b)
  | _ => false

def midwayOps : PusherPc α → Bool
  | .enqueue _ | .setSockOps => true
  | _ => false

def Announced (b : Box) (w : System α) : Prop :=
  w.shared.added b = true ∨ ∃ t, midway b (w.own t) = true

def AllReturned (q : MpscQueue) : Prop := q.returned = q.pushed.map .node

structure BoxOk (b : Box) (w : System α) : Prop where
  rest : w.shared.worker ≠ .popping b → AllReturned (w.shared.box b) ∨ Announced b w
  tail : w.shared.worker = .popping b → (w.shared.box b).pop = .loadTail →
    (w.shared.box b).tail = (w.shared.box b).head ∨ Announced b w
  null : w.shared.worker = .popping b → (w.shared.box b).pop = .idle →
    (w.shared.box b).result = none → AllReturned (w.shared.box b) ∨ Announced b w

def OpsOk (w : System α) : Prop :=
  (∀ pc, w.shared.worker ≠ .bulk pc) → Segmented.Drained w.shared.ops ∨
    w.shared.hasSockOps = true ∨ ∃ t, midwayOps (w.own t) = true

section Flags

variable {size : Nat} {w : System α} {b : Box} {t : Nat} {s s₀ : Storage α} {pc old : PusherPc α}

/-- A step of a thread announces the queue, or leaves it as it was. -/
theorem PushStep.announces (hstep : PushStep size s₀ t old s pc) (b : Box) :
    midway b pc = true ∨ s.added b = true ∨
      (midway b old = false ∧ s.added b = s₀.added b ∧ (s.box b).tail = (s₀.box b).tail ∧
        (s.box b).pushed = (s₀.box b).pushed) := by
  have hset : ∀ (b' : Box) (q : MpscQueue) (pc : PusherPc α), midway b old = false →
      (b' = b → midway b pc = true ∨ q.tail = (s₀.box b').tail ∧ q.pushed = (s₀.box b').pushed) →
      midway b pc = true ∨ (s₀.setBox b' q).added b = true ∨
        (midway b old = false ∧ (s₀.setBox b' q).added b = s₀.added b ∧
          ((s₀.setBox b' q).box b).tail = (s₀.box b).tail ∧
          ((s₀.setBox b' q).box b).pushed = (s₀.box b).pushed) := by
    intro b' q pc hold hsame
    by_cases hb : b' = b
    · subst hb
      refine (hsame rfl).imp_right fun hq => .inr ⟨hold, rfl, ?_⟩
      rw [setBox_self]
      exact hq
    · rw [setBox_of_ne _ _ (Ne.symm hb)]
      exact .inr (.inr ⟨hold, rfl, rfl, rfl⟩)
  cases hstep with
  | push b' n hn => exact hset b' _ _ rfl fun _ => .inr ⟨rfl, rfl⟩
  | exchange b' n => exact hset b' _ _ rfl fun hb => .inl (decide_eq_true hb)
  | link b' n prev =>
      by_cases hb : b' = b
      · exact .inl (decide_eq_true hb)
      · exact hset b' _ _ (decide_eq_false hb) fun habs => absurd habs hb
  | setAdded b' =>
      by_cases hb : b' = b
      · subst hb
        exact .inr (.inl (Function.update_self ..))
      · exact .inr (.inr ⟨decide_eq_false hb, Function.update_of_ne (Ne.symm hb) .., rfl, rfl⟩)
  | call op => exact .inr (.inr ⟨rfl, rfl, rfl, rfl⟩)
  | enqueue pc spurious busy => exact .inr (.inr ⟨rfl, rfl, rfl, rfl⟩)
  | setSockOps => exact .inr (.inr ⟨rfl, rfl, rfl, rfl⟩)
  | wakePoller => exact .inr (.inr ⟨rfl, rfl, rfl, rfl⟩)
  | wake => exact .inr (.inr ⟨rfl, rfl, rfl, rfl⟩)
  | write => exact .inr (.inr ⟨rfl, rfl, rfl, rfl⟩)

theorem PushStep.owner (hstep : PushStep size s₀ t old s pc) (b : Box) :
    (s.box b).head = (s₀.box b).head ∧ (s.box b).returned = (s₀.box b).returned ∧
      (s.box b).result = (s₀.box b).result := by
  have hset : ∀ (b' : Box) (q : MpscQueue), q.head = (s₀.box b').head →
      q.returned = (s₀.box b').returned → q.result = (s₀.box b').result →
      ((s₀.setBox b' q).box b).head = (s₀.box b).head ∧
        ((s₀.setBox b' q).box b).returned = (s₀.box b).returned ∧
        ((s₀.setBox b' q).box b).result = (s₀.box b).result := by
    intro b' q hhead hret hres
    by_cases hb : b' = b
    · subst hb
      rw [setBox_self]
      exact ⟨hhead, hret, hres⟩
    · rw [setBox_of_ne _ _ (Ne.symm hb)]
      exact ⟨rfl, rfl, rfl⟩
  cases hstep with
  | push b' n hn => exact hset b' _ rfl rfl rfl
  | exchange b' n => exact hset b' _ rfl rfl rfl
  | link b' n prev => exact hset b' _ rfl rfl rfl
  | _ => exact ⟨rfl, rfl, rfl⟩

theorem BoxOk.push (h : BoxOk b w) (hstep : PushStep size w.shared t (w.own t) s pc) :
    BoxOk b ⟨s, Function.update w.own t pc⟩ := by
  have hworker := hstep.worker
  have hpop := hstep.pop b
  obtain ⟨hhead, hret, hres⟩ := hstep.owner b
  -- a fact about the queue or an announcement survives the step
  have hkeep : ∀ {D D' : Prop}, ((s.box b).tail = (w.shared.box b).tail →
      (s.box b).pushed = (w.shared.box b).pushed → D → D') → D ∨ Announced b w →
      D' ∨ Announced b ⟨s, Function.update w.own t pc⟩ := by
    intro D D' hD hor
    rcases hstep.announces b with hmid | hadded | ⟨hold, hadded, htail, hpushed⟩
    · exact .inr (.inr ⟨t, by simpa using hmid⟩)
    · exact .inr (.inl hadded)
    · refine hor.imp (hD htail hpushed) (.imp hadded.trans ?_)
      rintro ⟨t', hmid⟩
      refine ⟨t', ?_⟩
      have htt : t' ≠ t := by
        rintro rfl
        rw [hold] at hmid
        simp at hmid
      simpa [Function.update_of_ne htt] using hmid
  have hall : (s.box b).tail = (w.shared.box b).tail →
      (s.box b).pushed = (w.shared.box b).pushed → AllReturned (w.shared.box b) →
      AllReturned (s.box b) := by
    intro _ hpushed hall
    unfold AllReturned
    rw [hret, hpushed]
    exact hall
  refine ⟨fun hw => ?_, fun hw hp => ?_, fun hw hp hr => ?_⟩
  · exact hkeep hall (h.rest (hworker ▸ hw))
  · refine hkeep (fun htail _ heq => ?_) (h.tail (hworker ▸ hw) (hpop ▸ hp))
    rw [htail, hhead]
    exact heq
  · exact hkeep hall (h.null (hworker ▸ hw) (hpop ▸ hp) (hres ▸ hr))

/-- A step of the worker outside the loops that empty an intrusive queue. -/
theorem BoxOk.elsewhere (h : BoxOk b w) (hold : w.shared.worker ≠ .popping b)
    (hnew : s.worker ≠ .popping b) (hbox : s.box b = w.shared.box b)
    (hadded : s.added b = w.shared.added b) : BoxOk b { w with shared := s } := by
  refine ⟨fun _ => ?_, fun hw => absurd hw hnew, fun hw => absurd hw hnew⟩
  have hrest := h.rest hold
  unfold Announced at hrest ⊢
  rw [hbox, hadded]
  exact hrest

theorem midway_of_link {b : Box} (h : ∃ t a n, (boxWorld b w).own t = .link a n) :
    ∃ t, midway b (w.own t) = true := by
  obtain ⟨t, a, n, hown⟩ := h
  refine ⟨t, ?_⟩
  have hown' : boxPc b (w.own t) = .link a n := hown
  cases hpc : w.own t with
  | push b' pc =>
      rw [hpc] at hown'
      by_cases hb : b' = b
      · subst hb
        rw [boxPc_push_self] at hown'
        rw [hown']
        exact decide_eq_true rfl
      · rw [boxPc_push_of_ne (Ne.symm hb)] at hown'
        simp at hown'
  | _ =>
      rw [hpc] at hown'
      simp [boxPc] at hown'

theorem BoxOk.popStep (h : BoxOk b w) (hsound : Intrusive.Sound (boxWorld b w))
    (hw : w.shared.worker = .popping b) (hpop : (w.shared.box b).pop ≠ .idle) :
    BoxOk b { w with shared := w.shared.setBox b (w.shared.box b).popStep } := by
  have hbox : (w.shared.setBox b (w.shared.box b).popStep).box b = (w.shared.box b).popStep :=
    setBox_self ..
  refine ⟨fun hrest => absurd hw hrest, fun _ hp => ?_, fun _ hp hr => ?_⟩
  · rw [hbox] at hp ⊢
    by_cases hold : (w.shared.box b).pop = .loadTail
    · -- the step from `loadTail` goes elsewhere
      unfold MpscQueue.popStep at hp
      rw [hold] at hp
      dsimp only at hp
      split at hp <;> simp [MpscQueue.retNull] at hp
    · exact (hsound.at_tail hold hp).imp_right fun hlink => .inr (midway_of_link hlink)
  · rw [hbox] at hp hr ⊢
    rcases hsound.null_cases hpop hp hr with hall | hlink | ⟨hold, htail⟩
    · exact .inl hall
    · exact .inr (.inr (midway_of_link hlink))
    · exact .inr ((h.tail hw hold).resolve_left htail)

theorem BoxOk.worker (h : BoxOk b w) (hsound : Intrusive.Sound (boxWorld b w))
    (hstep : WorkerStep size w.shared s) : BoxOk b { w with shared := s } := by
  have hafter : ∀ b', (afterBox b' : WorkerPc α) ≠ .popping b := by
    intro b'
    cases b' <;> simp [afterBox]
  cases hstep with
  | woken hw | timeout hw | read hw | clear hw | work hw | callBulk hw =>
      exact h.elsewhere (by simp [hw]) (by simp) rfl rfl
  | bulk pc spurious hw busy =>
      refine h.elsewhere (by simp [hw]) ?_ rfl rfl
      unfold afterBulk
      dsimp only
      split
      · split <;> simp
      · simp
  | takeOps hw => split <;> exact h.elsewhere (by simp [hw]) (by simp) rfl rfl
  | takeFlag b' hw =>
      split
      · by_cases hb : b = b'
        · subst hb
          have hbox : ((w.shared.setAdded b false).setBox b
              { w.shared.box b with pop := .first }).box b =
                { w.shared.box b with pop := .first } := setBox_self ..
          refine ⟨fun hrest => absurd rfl hrest, fun _ hp => ?_, fun _ hp => ?_⟩
          · exact absurd ((congrArg MpscQueue.pop hbox).symm.trans hp) (by simp)
          · exact absurd ((congrArg MpscQueue.pop hbox).symm.trans hp) (by simp)
        · exact h.elsewhere (by simp [hw]) (by simpa using Ne.symm hb) (setBox_of_ne _ _ hb)
            (Function.update_of_ne hb ..)
      · exact h.elsewhere (by simp [hw]) (hafter b') rfl rfl
  | popStep b' hw hpop =>
      by_cases hb : b = b'
      · subst hb
        exact h.popStep hsound hw hpop
      · exact h.elsewhere (by simpa [hw] using Ne.symm hb) (by simpa [Storage.setBox, hw] using Ne.symm hb)
          (setBox_of_ne _ _ hb) rfl
  | popped b' hw hpop =>
      by_cases hb : b = b'
      · subst hb
        split
        · have hbox : (w.shared.setBox b { w.shared.box b with pop := .first }).box b =
              { w.shared.box b with pop := .first } := setBox_self ..
          refine ⟨fun hrest => absurd hw hrest, fun _ hp => ?_, fun _ hp => ?_⟩
          · exact absurd ((congrArg MpscQueue.pop hbox).symm.trans hp) (by simp)
          · exact absurd ((congrArg MpscQueue.pop hbox).symm.trans hp) (by simp)
        · rename_i hres
          have hnull := h.null hw hpop (by simpa using hres)
          exact ⟨fun _ => hnull, fun habs => absurd habs (hafter b), fun habs =>
            absurd habs (hafter b)⟩
      · split
        · exact h.elsewhere (by simpa [hw] using Ne.symm hb)
            (by simpa [Storage.setBox, hw] using Ne.symm hb) (setBox_of_ne _ _ hb) rfl
        · exact h.elsewhere (by simpa [hw] using Ne.symm hb) (hafter b') rfl rfl

theorem OpsOk.push (h : OpsOk w) (hstep : PushStep size w.shared t (w.own t) s pc) :
    OpsOk ⟨s, Function.update w.own t pc⟩ := by
  intro hw
  have hrest := h (hstep.worker ▸ hw)
  generalize hown : w.own t = old at hstep
  have hmid : midwayOps pc = true → ∃ t', midwayOps (Function.update w.own t pc t') = true :=
    fun hpc => ⟨t, by simpa using hpc⟩
  have hkeep : midwayOps old = false → s.ops = w.shared.ops → s.hasSockOps = w.shared.hasSockOps →
      Segmented.Drained s.ops ∨ s.hasSockOps = true ∨
        ∃ t', midwayOps (Function.update w.own t pc t') = true := by
    intro hold hops hflag
    rw [hops, hflag]
    refine hrest.imp_right (.imp_right ?_)
    rintro ⟨t', ht'⟩
    refine ⟨t', ?_⟩
    have htt : t' ≠ t := by
      rintro rfl
      rw [hown, hold] at ht'
      simp at ht'
    simpa [Function.update_of_ne htt] using ht'
  cases hstep with
  | call op => exact .inr (.inr (hmid rfl))
  | enqueue pc spurious busy =>
      refine .inr (.inr (hmid ?_))
      unfold afterEnqueue
      split <;> rfl
  | setSockOps => exact .inr (.inl rfl)
  | _ => exact hkeep rfl rfl rfl

theorem OpsOk.worker (h : OpsOk w) (hs : Segmented.Shared size w.shared.ops)
    (hseen : Segmented.Seen size w.shared.ops (workerOps w.shared.worker))
    (hstep : WorkerStep size w.shared s) : OpsOk { w with shared := s } := by
  cases hstep with
  | woken hw | timeout hw | read hw | clear hw | work hw => exact fun _ => h (by simp [hw])
  | takeFlag b hw => split <;> exact fun _ => h (by simp [hw])
  | popStep b hw hpop => exact fun _ => h (by simp [hw])
  | popped b hw hpop => split <;> exact fun _ => h (by simp [hw])
  | takeOps hw =>
      split
      · exact fun hnew => absurd rfl (hnew .idle)
      · exact fun _ => h (by simp [hw])
  | callBulk hw => exact fun hnew => absurd rfl (hnew _)
  | bulk pc spurious hw busy =>
      intro hnew
      -- the loop ends because the dequeue found nothing
      have hdone : (Segmented.exec size 0 spurious w.shared.ops pc).2 = .idle ∧
          findsNothing pc = true := by
        dsimp only at hnew
        unfold afterBulk at hnew
        split at hnew
        · rename_i hidle
          split at hnew
          · rename_i hnothing
            exact ⟨hidle, hnothing⟩
          · exact absurd rfl (hnew .idle)
        · exact absurd rfl (hnew _)
      obtain ⟨hidle, hnothing⟩ := hdone
      rw [hw] at hseen
      left
      cases pc with
      | checkEmpty max s d =>
          dsimp only
          rw [Segmented.exec.eq_def] at hidle ⊢
          dsimp only at hidle ⊢
          split at hidle
          · rename_i hempty
            rw [if_pos hempty]
            exact Segmented.drained_of_checkEmpty hs hseen hempty
          · simp at hidle
      | loadHeadNext max s =>
          dsimp only
          rw [Segmented.exec.eq_def] at hidle ⊢
          dsimp only at hidle ⊢
          split at hidle
          · simp at hidle
          · rename_i hlast
            rw [if_neg hlast]
            exact Segmented.drained_of_loadHeadNext hs hseen hlast
      | _ => simp [findsNothing] at hnothing

end Flags

/-! ## What the flags say about the worker -/

inductive Flag where
  | box (b : Box)
  | ops

def Flag.isSet (x : Flag) (s : Storage α) : Bool :=
  match x with
  | .box b => s.added b
  | .ops => s.hasSockOps

/-- The parts of an iteration in their order, from the return of `epoll_wait` on. -/
def WorkerPc.stage : WorkerPc α → Nat
  | .read => 0
  | .clear => 1
  | .work => 2
  | .takeFlag .inbox => 3
  | .popping .inbox => 4
  | .takeFlag .kicks => 5
  | .popping .kicks => 6
  | .takeOps => 7
  | .bulk _ => 8
  | .poll => 9

def Flag.stage : Flag → Nat
  | .box .inbox => 3
  | .box .kicks => 5
  | .ops => 7

def Signalled (w : System α) : Prop :=
  (∃ t, w.own t = .write) ∨ w.shared.armed = true ∧ 0 < w.shared.eventfd

structure Waking (w : System α) : Prop where
  flags : ∀ x : Flag, x.isSet w.shared = true → w.shared.worker.stage ≤ x.stage ∨
    (∃ t, w.own t = .wake) ∨ Signalled w
  pending : w.shared.wakePending = true → w.shared.worker.stage ≤ 1 ∨ Signalled w

section Waking

variable {size : Nat} {w : System α} {t : Nat} {s : Storage α} {pc : PusherPc α}

theorem Waking.go (h : Waking w) (hold : w.own t ≠ .wake ∧ w.own t ≠ .write)
    (hflags : ∀ x : Flag, x.isSet s = x.isSet w.shared) (hworker : s.worker = w.shared.worker)
    (hpending : s.wakePending = w.shared.wakePending) (hfd : s.eventfd = w.shared.eventfd)
    (harmed : s.armed = w.shared.armed) : Waking ⟨s, Function.update w.own t pc⟩ := by
  have hkeep : ∀ {pc' : PusherPc α}, w.own t ≠ pc' → (∃ t', w.own t' = pc') →
      ∃ t', Function.update w.own t pc t' = pc' := by
    rintro pc' hne ⟨t', ht'⟩
    refine ⟨t', (Function.update_of_ne ?_ ..).trans ht'⟩
    rintro rfl
    exact hne ht'
  have hsignal : Signalled w → Signalled ⟨s, Function.update w.own t pc⟩ := by
    refine .imp (hkeep hold.2) fun hfd' => ?_
    rw [hfd, harmed]
    exact hfd'
  refine ⟨fun x hx => ?_, fun hp => ?_⟩
  · rw [hflags] at hx
    rw [hworker]
    exact (h.flags x hx).imp_right (.imp (hkeep hold.1) hsignal)
  · rw [hpending] at hp
    rw [hworker]
    exact (h.pending hp).imp_right hsignal

theorem Waking.announce (h : Waking w) (hold : w.own t ≠ .write) (hworker : s.worker = w.shared.worker)
    (hpending : s.wakePending = w.shared.wakePending) (hfd : s.eventfd = w.shared.eventfd)
    (harmed : s.armed = w.shared.armed) : Waking ⟨s, Function.update w.own t .wake⟩ := by
  refine ⟨fun x _ => .inr (.inl ⟨t, Function.update_self ..⟩), fun hp => ?_⟩
  rw [hpending] at hp
  rw [hworker]
  refine (h.pending hp).imp_right (.imp ?_ fun hfd' => ?_)
  · rintro ⟨t', ht'⟩
    refine ⟨t', (Function.update_of_ne ?_ ..).trans ht'⟩
    rintro rfl
    exact hold ht'
  · rw [hfd, harmed]
    exact hfd'

theorem Waking.push (h : Waking w) (hstep : PushStep size w.shared t (w.own t) s pc) :
    Waking ⟨s, Function.update w.own t pc⟩ := by
  generalize hown : w.own t = old at hstep
  cases hstep with
  | push b n hn =>
      refine h.go (by simp [hown]) (fun x => ?_) rfl rfl rfl rfl
      cases x <;> rfl
  | exchange b n =>
      refine h.go (by simp [hown]) (fun x => ?_) rfl rfl rfl rfl
      cases x <;> rfl
  | link b n prev =>
      refine h.go (by simp [hown]) (fun x => ?_) rfl rfl rfl rfl
      cases x <;> rfl
  | setAdded b => exact h.announce (by simp [hown]) rfl rfl rfl rfl
  | call op =>
      refine h.go (by simp [hown]) (fun x => ?_) rfl rfl rfl rfl
      cases x <;> rfl
  | enqueue pc spurious busy =>
      refine h.go (by simp [hown]) (fun x => ?_) rfl rfl rfl rfl
      cases x <;> rfl
  | setSockOps => exact h.announce (by simp [hown]) rfl rfl rfl rfl
  | wakePoller => exact h.announce (by simp [hown]) rfl rfl rfl rfl
  | wake =>
      by_cases hp : w.shared.wakePending = true
      · -- another wake is pending: the worker has not cleared it, or it is signalled
        have hcase := h.pending hp
        have hsignal : Signalled w → Signalled ⟨{ w.shared with wakePending := true },
            Function.update w.own t (if w.shared.wakePending then .idle else .write)⟩ := by
          refine .imp_left ?_
          rintro ⟨t', ht'⟩
          refine ⟨t', (Function.update_of_ne ?_ ..).trans ht'⟩
          rintro rfl
          rw [hown] at ht'
          simp at ht'
        refine ⟨fun x _ => ?_, fun _ => hcase.imp_right hsignal⟩
        rcases hcase with hstage | hs
        · left
          have hx : 1 ≤ x.stage := by
            rcases x with (_ | _) | _ <;> simp [Flag.stage]
          exact hstage.trans hx
        · exact .inr (.inr (hsignal hs))
      · rw [if_neg hp]
        exact ⟨fun x _ => .inr (.inr (.inl ⟨t, Function.update_self ..⟩)),
          fun _ => .inr (.inl ⟨t, Function.update_self ..⟩)⟩
  | write =>
      exact ⟨fun x _ => .inr (.inr (.inr ⟨rfl, Nat.succ_pos _⟩)),
        fun _ => .inr (.inr ⟨rfl, Nat.succ_pos _⟩)⟩

/-- The worker goes on; what it passes is not set. -/
theorem Waking.pass (h : Waking w) (hsignal : Signalled w → Signalled { w with shared := s })
    (hflags : ∀ x : Flag, x.isSet s = true → x.isSet w.shared = true ∧
      (w.shared.worker.stage ≤ x.stage → s.worker.stage ≤ x.stage))
    (hpending : s.wakePending = true → w.shared.wakePending = true ∧
      (w.shared.worker.stage ≤ 1 → s.worker.stage ≤ 1)) : Waking { w with shared := s } := by
  refine ⟨fun x hx => ?_, fun hp => ?_⟩
  · obtain ⟨hx', hstage⟩ := hflags x hx
    exact (h.flags x hx').imp hstage (.imp_right hsignal)
  · obtain ⟨hp', hstage⟩ := hpending hp
    exact (h.pending hp').imp hstage hsignal

theorem waking_start (h : s.worker.stage ≤ 1) : Waking { w with shared := s } := by
  refine ⟨fun x _ => .inl (h.trans ?_), fun _ => .inl h⟩
  rcases x with (_ | _) | _ <;> simp [Flag.stage]

theorem Waking.takeFlag (h : Waking w) {b : Box} (hw : w.shared.worker = .takeFlag b) :
    Waking { w with shared := if w.shared.added b then
        { (w.shared.setAdded b false).setBox b { w.shared.box b with pop := .first } with
          worker := .popping b }
      else { w.shared with worker := afterBox b } } := by
  split
  · refine h.pass id (fun x hx => ?_) fun hp => ⟨hp, fun habs => ?_⟩
    · have hx' : x ≠ .box b ∧ x.isSet w.shared = true := by
        cases x with
        | box b' =>
            have hupd : Function.update w.shared.added b false b' = true := hx
            have hb : b' ≠ b := by
              rintro rfl
              rw [Function.update_self] at hupd
              simp at hupd
            rw [Function.update_of_ne hb] at hupd
            exact ⟨by simpa using hb, hupd⟩
        | ops => exact ⟨by simp, hx⟩
      refine ⟨hx'.2, ?_⟩
      rw [hw]
      cases b <;> rcases x with (_ | _) | _ <;> simp [WorkerPc.stage, Flag.stage] at hx' ⊢
    · cases b <;> simp [hw, WorkerPc.stage] at habs
  · rename_i hflag
    refine h.pass id (fun x hx => ?_) fun hp => ⟨hp, fun habs => ?_⟩
    · have hx' : x ≠ .box b ∧ x.isSet w.shared = true := by
        cases x with
        | box b' =>
            refine ⟨?_, hx⟩
            rintro hb
            obtain rfl := Flag.box.inj hb
            exact hflag hx
        | ops => exact ⟨by simp, hx⟩
      refine ⟨hx'.2, ?_⟩
      rw [hw]
      cases b <;> rcases x with (_ | _) | _ <;>
        simp [WorkerPc.stage, Flag.stage, afterBox] at hx' ⊢
    · cases b <;> simp [hw, WorkerPc.stage] at habs

theorem Waking.worker (h : Waking w) (hstep : WorkerStep size w.shared s) :
    Waking { w with shared := s } := by
  cases hstep with
  | woken hw harmed hfd => exact waking_start (Nat.zero_le _)
  | read hw => exact waking_start (Nat.le_refl _)
  | timeout hw =>
      refine h.pass (.imp_right fun hfd => ⟨by simp [hfd.1, hfd.2], hfd.2⟩) (fun x hx => ⟨?_, ?_⟩)
        fun hp => ⟨hp, fun habs => ?_⟩
      · cases x <;> exact hx
      · rcases x with (_ | _) | _ <;> simp [WorkerPc.stage, Flag.stage]
      · simp [hw, WorkerPc.stage] at habs
  | clear hw =>
      refine h.pass id (fun x hx => ⟨?_, fun _ => ?_⟩) fun hp => Bool.noConfusion hp
      · cases x <;> exact hx
      · rcases x with (_ | _) | _ <;> simp [WorkerPc.stage, Flag.stage]
  | work hw =>
      refine h.pass id (fun x hx => ⟨?_, fun _ => ?_⟩) fun hp => ⟨hp, fun habs => ?_⟩
      · cases x <;> exact hx
      · rcases x with (_ | _) | _ <;> simp [WorkerPc.stage, Flag.stage]
      · simp [hw, WorkerPc.stage] at habs
  | takeFlag b hw => exact h.takeFlag hw
  | popStep b hw hpop =>
      refine h.pass id (fun x hx => ⟨?_, id⟩) fun hp => ⟨hp, id⟩
      cases x <;> exact hx
  | popped b hw hpop =>
      split
      · refine h.pass id (fun x hx => ⟨?_, id⟩) fun hp => ⟨hp, id⟩
        cases x <;> exact hx
      · refine h.pass id (fun x hx => ⟨?_, ?_⟩) fun hp => ⟨hp, fun habs => ?_⟩
        · cases x <;> exact hx
        · rw [hw]
          cases b <;> rcases x with (_ | _) | _ <;> simp [WorkerPc.stage, Flag.stage, afterBox]
        · cases b <;> simp [hw, WorkerPc.stage] at habs
  | takeOps hw =>
      have hpast : ∀ {s' : Storage α}, s'.added = w.shared.added → s'.hasSockOps = false →
          ∀ x : Flag, x.isSet s' = true → x.isSet w.shared = true ∧
            (w.shared.worker.stage ≤ x.stage → s'.worker.stage ≤ x.stage) := by
        intro s' hadded hops x hx
        cases x with
        | box b =>
            have hx' : s'.added b = true := hx
            refine ⟨?_, ?_⟩
            · rw [hadded] at hx'
              exact hx'
            · rw [hw]
              cases b <;> simp [WorkerPc.stage, Flag.stage]
        | ops =>
            have hx' : s'.hasSockOps = true := hx
            rw [hops] at hx'
            simp at hx'
      have hlow : w.shared.worker.stage ≤ 1 → False := by
        rw [hw]
        simp [WorkerPc.stage]
      split
      · exact h.pass id (hpast rfl rfl) fun hp => ⟨hp, fun habs => (hlow habs).elim⟩
      · rename_i hflag
        exact h.pass id (hpast rfl (by simpa using hflag)) fun hp =>
          ⟨hp, fun habs => (hlow habs).elim⟩
  | callBulk hw =>
      refine h.pass id (fun x hx => ⟨?_, ?_⟩) fun hp => ⟨hp, ?_⟩
      · cases x <;> exact hx
      · rw [hw]
        exact id
      · rw [hw]
        exact id
  | bulk pc spurious hw busy =>
      refine h.pass id (fun x hx => ⟨?_, ?_⟩) fun hp => ⟨hp, ?_⟩
      · cases x <;> exact hx
      · rw [hw]
        rcases x with (_ | _) | _ <;> simp [WorkerPc.stage, Flag.stage]
      · rw [hw]
        simp [WorkerPc.stage]

end Waking

/-! ## Every interleaving -/

theorem waking_of_runs {size : Nat} {w : System α} (h : Runs size w) : Waking w := by
  induction h with
  | start =>
      refine ⟨fun x hx => ?_, fun hp => Bool.noConfusion hp⟩
      cases x <;> exact Bool.noConfusion hx
  | step _ hstep ih =>
      cases hstep with
      | push hstep => exact ih.push hstep
      | worker hstep => exact ih.worker hstep

theorem boxOk_of_runs {size : Nat} {w : System α} (h : Runs size w) (b : Box) : BoxOk b w := by
  induction h with
  | start => exact ⟨fun _ => .inl rfl, fun habs => by simp [Storage.new] at habs,
      fun habs => by simp [Storage.new] at habs⟩
  | step hw hstep ih =>
      cases hstep with
      | push hstep => exact ih.push hstep
      | worker hstep => exact ih.worker (runs_sound (boxRuns hw b).1) hstep

theorem opsOk_of_runs {size : Nat} (hsize : 0 < size) {w : System α} (h : Runs size w) : OpsOk w := by
  induction h with
  | start =>
      refine fun _ => .inl fun k i t op v hfate => ?_
      simp [Storage.new, Segmented.Chain.new, Segmented.Segment.new] at hfate
  | step hw hstep ih =>
      cases hstep with
      | push hstep => exact ih.push hstep
      | worker hstep =>
          have hops := opsRuns hw
          obtain ⟨hs, -⟩ := (Segmented.segmentedThreads hsize).holds hops
          exact ih.worker hs (Segmented.seen_of_runs hsize hops 0) hstep

/-- In every interleaving a worker that sleeps has been handed nothing that it has not
taken. -/
theorem served_of_asleep {size : Nat} (hsize : 2 ≤ size) {w : System α} (h : Runs size w)
    (hasleep : Asleep w) : Served w := by
  have hwaking := waking_of_runs h
  -- no flag is set
  have hquiet : ¬ ((∃ t, w.own t = .wake) ∨ Signalled w) := by
    rintro (⟨t, ht⟩ | ⟨t, ht⟩ | hfd)
    · rw [hasleep.threads t] at ht
      simp at ht
    · rw [hasleep.threads t] at ht
      simp at ht
    · exact hasleep.seen hfd
  have hflags : ∀ x : Flag, x.isSet w.shared = false := by
    intro x
    by_contra hx
    rcases hwaking.flags x (by simpa using hx) with hstage | habs
    · rw [hasleep.worker] at hstage
      rcases x with (_ | _) | _ <;> simp [WorkerPc.stage, Flag.stage] at hstage
    · exact hquiet habs
  refine ⟨fun b => ?_, fun k i t op v hfate => ?_⟩
  · refine ((boxOk_of_runs h b).rest (by simp [hasleep.worker])).resolve_right ?_
    rintro (hadded | ⟨t, ht⟩)
    · have hfalse : w.shared.added b = false := hflags (.box b)
      rw [hfalse] at hadded
      simp at hadded
    · rw [hasleep.threads t] at ht
      simp [midway] at ht
  · have hdrained : Segmented.Drained w.shared.ops := by
      refine (opsOk_of_runs (by omega) h (by simp [hasleep.worker])).resolve_right ?_
      rintro (hops | ⟨t, ht⟩)
      · have hfalse : w.shared.hasSockOps = false := hflags .ops
        rw [hfalse] at hops
        simp at hops
      · rw [hasleep.threads t] at ht
        simp [midwayOps] at ht
    obtain ⟨c, htaker⟩ := Option.ne_none_iff_exists'.mp (hdrained k i t op v hfate)
    obtain ⟨hs, hown⟩ := (Segmented.segmentedThreads (by omega)).holds (opsRuns h)
    rcases (hown c).delivered hs hfate htaker with hgot | hholds
    · exact ⟨c, hgot⟩
    · -- nobody is inside the queue
      have hidle : (opsWorld w).own c = .idle := by
        cases c with
        | zero => simp [opsWorld, hasleep.worker, workerOps]
        | succ c => simp [opsWorld, hasleep.threads c, pusherOps]
      rw [hidle] at hholds
      exact hholds.elim

/-- Thread 0 hands over frame 5, and the worker takes it and sleeps again. -/
theorem oneFrame_served :
    ∃ w : System Nat, Runs 2 w ∧ Asleep w ∧ (w.shared.box .inbox).pushed = [5] ∧ Served w := by
  have h0 : Runs 2 (⟨.new, fun _ => .idle⟩ : System Nat) := .start
  have h1 := h0.step (.push (t := 0) (.push .inbox 5 rfl))
  have h2 := h1.step (.push (t := 0) (.exchange .inbox 5))
  have h3 := h2.step (.push (t := 0) (.link .inbox 5 .stub))
  have h4 := h3.step (.push (t := 0) (.setAdded .inbox))
  have h5 := h4.step (.push (t := 0) .wake)
  have h6 := h5.step (.push (t := 0) .write)
  have h7 := h6.step (.worker (.woken rfl rfl (by decide)))
  have h8 := h7.step (.worker (.read rfl))
  have h9 := h8.step (.worker (.clear rfl))
  have h10 := h9.step (.worker (.work rfl))
  have h11 := h10.step (.worker (.takeFlag .inbox rfl))
  have h12 := h11.step (.worker (.popStep .inbox rfl nofun))
  have h13 := h12.step (.worker (.popStep .inbox rfl nofun))
  have h14 := h13.step (.worker (.popStep .inbox rfl nofun))
  have h15 := h14.step (.worker (.popStep .inbox rfl nofun))
  have h16 := h15.step (.worker (.popStep .inbox rfl nofun))
  have h17 := h16.step (.worker (.popStep .inbox rfl nofun))
  have h18 := h17.step (.worker (.popStep .inbox rfl nofun))
  have h19 := h18.step (.worker (.popped .inbox rfl rfl))
  have h20 := h19.step (.worker (.popStep .inbox rfl nofun))
  have h21 := h20.step (.worker (.popped .inbox rfl rfl))
  have h22 := h21.step (.worker (.takeFlag .kicks rfl))
  have h23 := h22.step (.worker (.takeOps rfl))
  have hserved : ∀ w : System Nat, Runs 2 w → Asleep w → (w.shared.box .inbox).pushed = [5] →
      ∃ w : System Nat, Runs 2 w ∧ Asleep w ∧ (w.shared.box .inbox).pushed = [5] ∧ Served w :=
    fun w hw hasleep hpushed => ⟨w, hw, hasleep, hpushed, served_of_asleep le_rfl hw hasleep⟩
  refine hserved _ h23 ⟨fun t => ?_, rfl, fun hfd => Nat.lt_irrefl 0 hfd.2⟩ rfl
  cases t with
  | zero => rfl
  | succ t => rfl

end Uvent.Pool
