import Mathlib.Logic.Function.Iterate
import Uvent.Sync.SuspensionRuns

/-!
# Nobody waits in vain

A coroutine that is suspended and that nobody has woken still has its nodes in the lists,
its timers armed and its hook in place, and a waker that pops one of the nodes, a timer that
fires and a cancel kick put its handle into a run queue.
-/

namespace Uvent.Sync.Suspension

variable {Λ : Type}

/-! ### The timers and the hook -/

/-- The timer is going to find the node of suspension `turn`, or has taken it. -/
def Sleeper.Live (x : Sleeper) (turn : Nat) : Prop :=
  x.waiter = some turn ∧ (x.timer = .armed ∨ x.timer = .exchange) ∨ x.timer = .claim turn

/-- How far the `attach` of a `SleepOp` has come: not begun or undone, the node is published,
the timer is armed, and `fired` was found false. -/
inductive Stage where
  | loose
  | published
  | started
  | checked
  deriving DecidableEq, Repr

def Phase.stage : Phase Λ → Nat → Stage
  | .attach _ k, j => if j < k then .checked else .loose
  | .startTimer _ k, j => if j < k then .checked else .published
  | .look _ k, j => if j < k then .checked else .started
  | .arm _, _ | .withdraw _, _ | .suspended _, _ => .checked
  | .running, _ | .check _, _ | .undo _, _ | .readWinner _, _ | .resumed _, _ | .detach .., _ =>
      .loose

def Stage.Holds (turn : Nat) (x : Sleeper) : Stage → Prop
  | .loose => True
  | .published => x.waiter = some turn ∨ x.timer = .claim turn
  | .started => (x.waiter = some turn ∨ x.timer = .claim turn) ∧ x.timer ≠ .off
  | .checked => x.Live turn

structure Coro.Armed (c : Coro Λ) : Prop where
  timers : c.winner = .none → ∀ k, c.phase.place k = some .sleep →
    (c.phase.stage k).Holds c.turn (c.sleepers k)
  hooked : ∀ w, c.phase = .withdraw w ∨ c.phase = .suspended w → c.winner = .none →
    c.hookPc = .idle → c.hook = some w

theorem armed_new : (Coro.new : Coro Λ).Armed := ⟨fun _ _ _ => trivial, fun _ h => by
  obtain h | h := h <;> cases h⟩

section Coroutine

variable {c c' : Coro Λ} {link : Nat → Λ → Prop} {w : Wait Λ} {j k : Nat}

theorem Coro.Armed.of_won (h : c.winner ≠ .none) : c.Armed :=
  ⟨fun hw => absurd hw h, fun _ _ hw => absurd hw h⟩

theorem Coro.Armed.of_loose (hstage : ∀ k, c.phase.stage k = .loose) : c.Armed := by
  refine ⟨fun _ k _ => ?_, fun w hphase => ?_⟩
  · rw [hstage k]
    trivial
  · have hstage := hstage 0
    obtain hphase | hphase := hphase <;> rw [hphase] at hstage <;> cases hstage

theorem Coro.Armed.congr (h : c.Armed) (hphase : c'.phase = c.phase) (hturn : c'.turn = c.turn)
    (hwinner : c'.winner = c.winner) (hsleepers : c'.sleepers = c.sleepers)
    (hhook : c'.hook = c.hook) (hpc : c'.hookPc = c.hookPc) : c'.Armed := by
  refine ⟨fun hw k hplace => ?_, fun w hp hw hidle => ?_⟩
  · rw [hphase] at hplace ⊢
    rw [hsleepers, hturn]
    exact h.timers (hwinner ▸ hw) k hplace
  · rw [hhook]
    exact h.hooked w (hphase ▸ hp) (hwinner ▸ hw) (hpc ▸ hidle)

/-- The timers do not see what becomes of the hook. -/
theorem Coro.Armed.unhooked (h : c.Armed) (hphase : c'.phase = c.phase) (hturn : c'.turn = c.turn)
    (hwinner : c'.winner = c.winner) (hsleepers : c'.sleepers = c.sleepers)
    (hlost : c'.winner = .none → c'.hookPc ≠ .idle) : c'.Armed := by
  refine ⟨fun hw k hplace => ?_, fun w hp hw hidle => absurd hidle (hlost hw)⟩
  rw [hphase] at hplace ⊢
  rw [hsleepers, hturn]
  exact h.timers (hwinner ▸ hw) k hplace

theorem Coro.Armed.move (hphase : c'.phase = .arm w ∨ c'.phase = .withdraw w ∨
      c'.phase = .suspended w)
    (htimers : c'.winner = .none → ∀ k, w.places[k]? = some .sleep →
      (c'.sleepers k).Live c'.turn)
    (hhook : c'.winner = .none → c'.hookPc = .idle → (∀ w', c'.phase ≠ .arm w') →
      c'.hook = some w) : c'.Armed := by
  refine ⟨fun hw k hplace => ?_, fun w' hp hw hidle => ?_⟩
  · obtain hphase | hphase | hphase := hphase <;> rw [hphase] at hplace ⊢ <;>
      exact htimers hw k hplace
  · have heq : w' = w := by
      obtain hphase | hphase | hphase := hphase <;> obtain hp | hp := hp <;>
        rw [hphase] at hp <;> cases hp <;> rfl
    rw [heq]
    refine hhook hw hidle fun w'' harm => ?_
    obtain hp | hp := hp <;> rw [harm] at hp <;> cases hp

theorem Coro.Armed.live (h : c.Armed) (hw : c.winner = .none)
    (hplace : c.phase.place k = some .sleep) (hstage : c.phase.stage k = .checked) :
    (c.sleepers k).Live c.turn := by
  have htimer := h.timers hw k hplace
  rw [hstage] at htimer
  exact htimer

theorem Coro.Armed.before (h : c.Armed) (hw : c.winner = .none)
    (hphase : c.phase = .attach w k ∨ c.phase = .startTimer w k ∨ c.phase = .look w k)
    (hj : j < k) (hat : w.places[j]? = some .sleep) : (c.sleepers j).Live c.turn := by
  have hle := Nat.le_of_lt hj
  obtain hphase | hphase | hphase := hphase <;>
    exact h.live hw (by simp [hphase, Phase.place, hj, hle, hat])
      (by simp [hphase, Phase.stage, hj])

theorem Coro.Armed.attachNone (h : c.Armed) (hphase : c.phase = .attach w k)
    (hat : w.places[k]? = none) : ({ c with phase := .arm w } : Coro Λ).Armed := by
  refine .move (.inl rfl) (fun hw j hj => ?_) fun _ _ harm => absurd rfl (harm w)
  have hlen : w.places.length ≤ k := by simpa using hat
  have hlt := (List.getElem?_eq_some_iff.mp hj).1
  exact h.before hw (.inl hphase) (by omega) hj

theorem Coro.Armed.toLook (hphase : c'.phase = .look w k)
    (hbefore : c'.winner = .none → ∀ j < k, w.places[j]? = some .sleep →
      (c'.sleepers j).Live c'.turn)
    (hat : c'.winner = .none → w.places[k]? = some .sleep →
      Stage.started.Holds c'.turn (c'.sleepers k)) : c'.Armed := by
  refine ⟨fun hw j hplace => ?_, fun w' hp => ?_⟩
  · rw [hphase] at hplace ⊢
    rcases Nat.lt_trichotomy j k with hlt | rfl | hgt
    · simp only [Phase.stage, if_pos hlt]
      simp only [Phase.place, if_pos (Nat.le_of_lt hlt)] at hplace
      exact hbefore hw j hlt hplace
    · simp only [Phase.stage, Nat.lt_irrefl, if_false]
      simp only [Phase.place, Nat.le_refl, if_true] at hplace
      exact hat hw hplace
    · simp [Phase.place, Nat.not_le.mpr hgt] at hplace
  · rw [hphase] at hp
    obtain hp | hp := hp <;> cases hp

theorem Coro.Armed.attachListed (h : c.Armed) {l : Λ} (hphase : c.phase = .attach w k)
    (hat : w.places[k]? = some (.listed l)) : ({ c with phase := .look w k } : Coro Λ).Armed := by
  refine .toLook rfl (fun hw j hj hplace => h.before hw (.inl hphase) hj hplace) fun _ hsleep => ?_
  rw [hat] at hsleep
  cases hsleep

theorem Coro.Armed.attachSleep (h : c.Armed) (hphase : c.phase = .attach w k) :
    ({ c.setWaiter k (some c.turn) with phase := .startTimer w k } : Coro Λ).Armed := by
  refine ⟨fun hw j hplace => ?_, fun w' hp => ?_⟩
  · rcases Nat.lt_trichotomy j k with hlt | rfl | hgt
    · simp only [Phase.place, if_pos (Nat.le_of_lt hlt)] at hplace
      simp only [Phase.stage, if_pos hlt, Coro.setWaiter,
        Coro.setSleeper_of_ne (Nat.ne_of_lt hlt)]
      exact h.before hw (.inl hphase) hlt hplace
    · simp only [Phase.stage, Nat.lt_irrefl, if_false, Coro.setWaiter, Coro.setSleeper_self]
      exact .inl rfl
    · simp [Phase.place, Nat.not_le.mpr hgt] at hplace
  · obtain hp | hp := hp <;> cases hp

theorem Coro.Armed.startTimer (h : c.Armed) (hphase : c.phase = .startTimer w k) {timer : TimerPc}
    (htimer : timer = if (c.sleepers k).timer = .off then .armed else (c.sleepers k).timer) :
    ({ c.setTimer k timer with phase := .look w k } : Coro Λ).Armed := by
  refine .toLook rfl (fun hw j hj hplace => ?_) fun hw hplace => ?_
  · simp only [Coro.setTimer, Coro.setSleeper_of_ne (Nat.ne_of_lt hj)]
    exact h.before hw (.inr (.inl hphase)) hj hplace
  · have hheld := h.timers hw k (by simp [hphase, Phase.place, hplace])
    simp only [hphase, Phase.stage, Nat.lt_irrefl, if_false] at hheld
    simp only [Coro.setTimer, Coro.setSleeper_self, Stage.Holds, htimer]
    split
    · rename_i hoff
      refine ⟨hheld.imp_right fun hclaim => ?_, by simp⟩
      rw [hoff] at hclaim
      cases hclaim
    · rename_i hon
      exact ⟨hheld, hon⟩

theorem Coro.Armed.look (h : c.Armed) (hphase : c.phase = .look w k) {wait : Bool}
    (hsleep : w.places[k]? = some .sleep → wait = !(c.sleepers k).timer.fired) :
    ({ c with phase := if wait then w.attachFrom (k + 1) else w.undo } : Coro Λ).Armed := by
  cases wait with
  | false =>
    refine .of_loose fun j => ?_
    cases w <;> rfl
  | true =>
    have hlive : c.winner = .none → ∀ j < k + 1, w.places[j]? = some .sleep →
        (c.sleepers j).Live c.turn := by
      intro hw j hj hat
      rcases Nat.lt_or_eq_of_le (Nat.le_of_lt_succ hj) with hlt | rfl
      · exact h.before hw (.inr (.inr hphase)) hlt hat
      · have hheld := h.timers hw j (by simp [hphase, Phase.place, hat])
        simp only [hphase, Phase.stage, Nat.lt_irrefl, if_false] at hheld
        obtain ⟨hheld, hoff⟩ := hheld
        have hfired : (c.sleepers j).timer.fired = false := by simpa using hsleep hat
        cases htimer : (c.sleepers j).timer with
        | off => exact absurd htimer hoff
        | armed =>
          refine .inl ⟨hheld.resolve_right ?_, .inl htimer⟩
          simp [htimer]
        | exchange | claim _ | enqueue _ | last | ended =>
          rw [htimer] at hfired
          cases hfired
    show ({ c with phase := w.attachFrom (k + 1) } : Coro Λ).Armed
    unfold Wait.attachFrom
    split
    · refine ⟨fun hw j hplace => ?_, fun w' hp => by obtain hp | hp := hp <;> cases hp⟩
      simp only [Phase.place] at hplace
      split at hplace
      · rename_i hj
        simp only [Phase.stage, if_pos hj]
        exact hlive hw j hj hplace
      · cases hplace
    · rename_i hlen
      refine .move (.inl rfl) (fun hw j hj => ?_) fun _ _ harm => absurd rfl (harm w)
      have hlt := (List.getElem?_eq_some_iff.mp hj).1
      exact hlive hw j (by omega) hj

theorem Coro.Armed.arm (h : c.Armed) (hphase : c.phase = .arm w) :
    (if c.requested then ({ c with hook := some w, phase := .withdraw w } : Coro Λ)
      else ({ c with hook := some w } : Coro Λ).suspend w).Armed := by
  have hlive : c.winner = .none → ∀ k, w.places[k]? = some .sleep → (c.sleepers k).Live c.turn :=
    fun hw k hk => h.live hw (by rw [hphase]; exact hk) (by rw [hphase]; rfl)
  split
  · exact .move (.inr (.inl rfl)) hlive fun _ _ _ => rfl
  · exact .move (.inr (.inr rfl)) hlive fun _ _ _ => rfl

theorem Coro.Armed.suspendOp {l : Λ}
    (hhook : c.winner = .none → c.hookPc = .idle → c.hook = some (.op l)) :
    (c.suspend (.op l)).Armed := by
  refine .move (.inr (.inr rfl)) (fun _ k hk => ?_) fun hw hidle _ => hhook hw hidle
  cases k with
  | zero => cases hk
  | succ k => simp [Wait.places] at hk

theorem Coro.Armed.setSleeper (h : c.Armed) {x : Sleeper}
    (hx : c.winner = .none → c.phase.place k = some .sleep →
      (c.phase.stage k).Holds c.turn (c.sleepers k) → (c.phase.stage k).Holds c.turn x) :
    (c.setSleeper k x).Armed := by
  refine ⟨fun hw j hplace => ?_, h.hooked⟩
  have htimer := h.timers hw j hplace
  by_cases hj : j = k
  · subst hj
    rw [Coro.setSleeper_self]
    exact hx hw hplace htimer
  · rw [Coro.setSleeper_of_ne hj]
    exact htimer

theorem Coro.Armed.setTimer (h : c.Armed) {timer : TimerPc}
    (hclaim : ∀ n, (c.sleepers k).timer ≠ .claim n) (hoff : timer ≠ .off)
    (hlive : (c.sleepers k).timer = .armed ∨ (c.sleepers k).timer = .exchange →
      timer = .armed ∨ timer = .exchange) : (c.setTimer k timer).Armed := by
  refine h.setSleeper fun _ _ hold => ?_
  generalize c.phase.stage k = stage at hold ⊢
  cases stage with
  | loose => trivial
  | published => exact .inl (hold.resolve_right (hclaim _))
  | started => exact ⟨.inl (hold.1.resolve_right (hclaim _)), hoff⟩
  | checked =>
    obtain ⟨hwaiter, htimer⟩ := hold.resolve_right (hclaim _)
    exact .inl ⟨hwaiter, hlive htimer⟩

/-- The exchange of `on_fire` finds no node. -/
theorem Coro.Armed.timerMisses (h : c.Armed) (htimer : (c.sleepers k).timer = .exchange)
    (hwaiter : (c.sleepers k).waiter = none) : (c.setTimer k .last).Armed := by
  refine h.setSleeper fun _ _ hold => ?_
  generalize c.phase.stage k = stage at hold ⊢
  cases stage with
  | loose => trivial
  | published | started | checked =>
    simp [Stage.Holds, Sleeper.Live, htimer, hwaiter] at hold

theorem Coro.Armed.timerTakes (h : c.Armed) {n : Nat} (htimer : (c.sleepers k).timer = .exchange)
    (hwaiter : (c.sleepers k).waiter = some n) : (c.setSleeper k ⟨.claim n, none⟩).Armed := by
  refine h.setSleeper fun _ _ hold => ?_
  generalize c.phase.stage k = stage at hold ⊢
  cases stage with
  | loose => trivial
  | published | started | checked =>
    simp [Stage.Holds, Sleeper.Live, htimer, hwaiter] at hold ⊢
    exact hold

end Coroutine

/-! ### The runs -/

section States

variable {s s' : State Λ} {t : Nat} {c' : Coro Λ}

theorem State.armed_one (h : ∀ t, (s.coros t).Armed)
    (hcoros : s'.coros = Function.update s.coros t c') (hc : c'.Armed) (t' : Nat) :
    (s'.coros t').Armed := by
  rw [hcoros]
  by_cases ht : t' = t
  · subst ht
    rwa [Function.update_self]
  · rw [Function.update_of_ne ht]
    exact h t'

theorem State.armed_onFire (h : ∀ t, (s.coros t).Armed) (t k t' : Nat) :
    ((s.onFire t k).coros t').Armed := by
  have hset : ∀ {c : Coro Λ}, c.Armed → ((s.set t c).coros t').Armed := fun hc =>
    State.armed_one h rfl hc t'
  match htimer : ((s.coros t).sleepers k).timer with
  | .off | .ended => simpa only [State.onFire, htimer] using h t'
  | .armed =>
    simp only [State.onFire, htimer]
    exact hset ((h t).setTimer (by simp [htimer]) (by simp) fun _ => .inr rfl)
  | .exchange =>
    cases hwaiter : ((s.coros t).sleepers k).waiter with
    | none =>
      simp only [State.onFire, htimer, hwaiter]
      exact hset ((h t).timerMisses htimer hwaiter)
    | some n =>
      simp only [State.onFire, htimer, hwaiter]
      exact hset ((h t).timerTakes htimer hwaiter)
  | .claim n =>
    simp only [State.onFire, htimer]
    split
    · exact hset (.of_won (by simp))
    · rename_i hw
      exact hset (.of_won hw)
  | .enqueue n =>
    simp only [State.onFire, htimer]
    have hmoved : ((s.coros t).setTimer k .last).Armed :=
      (h t).setTimer (by simp [htimer]) (by simp) (by simp [htimer])
    exact hset (hmoved.congr rfl rfl rfl rfl rfl rfl)
  | .last =>
    simp only [State.onFire, htimer]
    exact hset ((h t).setTimer (by simp [htimer]) (by simp) (by simp [htimer]))

variable [DecidableEq Λ]

theorem Coro.Open.removed {k : Nat} {l : Λ} (h : (s.coros t).Open (s.Link t))
    (hattached : (s.coros t).phase.attached = true)
    (hplace : (s.coros t).phase.place k = some (.listed l)) (hw : (s.coros t).winner = .none)
    (hidle : (s.coros t).hookPc = .idle) : (s.remove t k l).1 = true :=
  (s.remove_fst t k l).mpr (h.linked hattached hw hidle k l hplace)

theorem State.armed_attach (h : ∀ t, (s.coros t).Armed) {w : Wait Λ} {k : Nat}
    (hphase : (s.coros t).phase = .attach w k) (t' : Nat) : ((s.attach t w k).coros t').Armed := by
  unfold State.attach
  match hat : w.places[k]? with
  | none => exact armed_one h rfl ((h t).attachNone hphase hat) t'
  | some (.listed l) => exact armed_one h rfl ((h t).attachListed hphase hat) t'
  | some .sleep => exact armed_one h rfl ((h t).attachSleep hphase) t'

theorem State.armed_undo (hinv : Inv s) (h : ∀ t, (s.coros t).Armed) {l : Λ}
    (hphase : (s.coros t).phase = .undo l) (t' : Nat) : ((s.undo t l).coros t').Armed := by
  obtain ⟨hopen, -⟩ := (hinv.coros t).at_kind (show _ = Kind.opening by rw [hphase]; rfl)
  rw [State.undo_eq]
  refine armed_one h rfl ?_ t'
  split
  · exact .of_loose fun _ => rfl
  · rename_i hremove
    refine .suspendOp fun hw hidle => absurd (hopen.removed ?_ ?_ hw hidle) hremove
    · rw [hphase]; rfl
    · rw [hphase]; rfl

theorem State.armed_withdraw (h : ∀ t, (s.coros t).Armed) {w : Wait Λ}
    (hphase : (s.coros t).phase = .withdraw w) (t' : Nat) :
    ((s.withdraw t w).coros t').Armed := by
  cases w with
  | op l =>
    rw [State.withdraw_op]
    refine armed_one h rfl ?_ t'
    split
    · exact .of_loose fun _ => rfl
    · exact .suspendOp fun hw hidle => (h t).hooked _ (.inl hphase) hw hidle
  | select ops =>
    rw [State.withdraw_select]
    refine armed_one h rfl ?_ t'
    split
    · exact .of_won nofun
    · rename_i hw
      exact .of_won hw

theorem State.armed_detach (h : ∀ t, (s.coros t).Armed) {ops : List (Place Λ)} {why : Why} {k : Nat}
    {part : Part} (t' : Nat) : ((s.detach t ops why k part).coros t').Armed := by
  unfold State.detach
  match ops[k]? with
  | none => cases why <;> exact armed_one h rfl (.of_loose fun _ => rfl) t'
  | some (.listed l) => exact armed_one h rfl (.of_loose fun _ => rfl) t'
  | some .sleep =>
    cases part with
    | exchange | loadFired =>
      refine armed_one h rfl (.of_loose fun _ => ?_) t'
      show (ite _ _ _ : Phase Λ).stage _ = _
      split <;> rfl
    | spin =>
      simp only
      split
      · exact armed_one h rfl (.of_loose fun _ => rfl) t'
      · exact h t'

theorem State.armed_onCancel (hinv : Inv s) (h : ∀ t, (s.coros t).Armed) {w : Wait Λ}
    (hhook : (s.coros t).hook = some w) (t' : Nat) : ((s.onCancel t w).coros t').Armed := by
  obtain ⟨hopen, -⟩ := (hinv.coros t).hooked (.inl (by rw [hhook]; nofun))
  cases w with
  | op l =>
    rw [State.onCancel_op]
    refine armed_one h rfl ?_ t'
    split
    · exact (h t).unhooked rfl rfl rfl rfl fun _ => nofun
    · rename_i hremove
      refine (h t).unhooked rfl rfl rfl rfl fun hw hidle => ?_
      refine absurd (hopen.removed ?_ ?_ hw hidle) hremove
      · obtain hp | hp := hopen.hooked _ hhook <;> rw [hp] <;> rfl
      · obtain hp | hp := hopen.hooked _ hhook <;> rw [hp] <;> rfl
  | select ops =>
    rw [State.onCancel_select]
    refine armed_one h rfl ?_ t'
    split
    · exact .of_won nofun
    · rename_i hw
      exact .of_won hw

theorem State.armed_popFire (h : ∀ t, (s.coros t).Armed) (l : Λ) (t : Nat) :
    ((s.popFire l).2.coros t).Armed := by
  unfold State.popFire
  match (s.lists l).popFrontLocked with
  | (none, _) => exact h t
  | (some n, nodes) =>
    by_cases hw : (s.coros n.coro).winner = .none
    · simp only [State.fire_none (s := s.setList l nodes) hw]
      exact armed_one (s := s.setList l nodes) h rfl (.of_won fun hw => by cases hw) t
    · simp only [State.fire_of_ne (s := s.setList l nodes) hw]
      exact h t

theorem State.armed_wakeLoop (h : ∀ t, (s.coros t).Armed) (l : Λ) (fuel count : Nat) (t : Nat) :
    ((State.wakeLoop l fuel count s).coros t).Armed := by
  induction fuel generalizing count s with
  | zero => exact h t
  | succ fuel ih =>
    cases count with
    | zero => exact h t
    | succ count =>
      rw [State.wakeLoop_succ]
      exact ih (State.armed_popFire h l) _

theorem armed_step (hinv : Inv s) (h : ∀ t, (s.coros t).Armed) (hstep : Step true s s') (t' : Nat) :
    (s'.coros t').Armed := by
  cases hstep with
  | request t =>
    refine State.armed_one h rfl ?_ t'
    exact (h t).congr rfl rfl rfl rfl rfl rfl
  | start t w _ => exact State.armed_one h rfl (.of_loose fun _ => rfl) t'
  | check t w _ =>
    refine State.armed_one h rfl ?_ t'
    split
    · exact .of_loose fun _ => rfl
    · unfold Wait.attachFrom
      split
      · exact .of_loose fun _ => rfl
      · rename_i hlen
        refine .move (.inl rfl) (fun _ k hk => ?_) fun _ _ harm => absurd rfl (harm w)
        have hlt := (List.getElem?_eq_some_iff.mp hk).1
        omega
  | attach t w k hphase => exact State.armed_attach h hphase t'
  | startTimer t w k hphase => exact State.armed_one h rfl ((h t).startTimer hphase rfl) t'
  | look t w k wait hphase hsleep => exact State.armed_one h rfl ((h t).look hphase hsleep) t'
  | undo t l hphase => exact State.armed_undo hinv h hphase t'
  | arm t w hphase => exact State.armed_one h rfl ((h t).arm hphase) t'
  | withdraw t w hphase => exact State.armed_withdraw h hphase t'
  | detach t ops why k part _ => exact State.armed_detach h t'
  | readWinner t ops _ =>
    rw [State.readWinner_eq]
    refine State.armed_one h rfl ?_ t'
    split
    · exact .of_loose fun _ => rfl
    · rename_i hw
      exact .of_won hw
  | resume t w _ _ =>
    refine State.armed_one h rfl (.of_loose fun _ => ?_) t'
    cases w <;> rfl
  | resumeEarly t hbuild _ _ => cases hbuild
  | resumed t l _ => exact State.armed_one h rfl (.of_loose fun _ => rfl) t'
  | onCancel t w _ hhook => exact State.armed_onCancel hinv h hhook t'
  | storeOwn t _ => exact State.armed_one h rfl (.of_won fun hw => by cases hw) t'
  | enqueueSelf t hpc =>
    refine State.armed_one h rfl (.of_won ?_) t'
    obtain ⟨⟨who, haccount, -⟩, -⟩ := ((hinv.coros t).hooked (.inr (by rw [hpc]; nofun))).1
    show (s.coros t).winner ≠ .none
    intro hw
    rw [hpc, hw] at haccount
    obtain hidle | hidle := haccount.of_none.2.2 <;> cases hidle
  | wake l count => exact State.armed_wakeLoop h l _ count t'
  | onFire t k => exact State.armed_onFire h t k t'
  | finalize t k hphase _ =>
    refine State.armed_one h rfl (.of_loose fun j => ?_) t'
    show (s.coros t).phase.stage j = .loose
    rw [hphase]
    rfl

theorem armed_of_runs (hruns : Runs true s) (t : Nat) : (s.coros t).Armed := by
  induction hruns generalizing t with
  | start => exact armed_new
  | step hruns hstep ih => exact armed_step (inv_of_runs hruns) ih hstep t

end States

/-! ### Whoever finds the coroutine wakes it -/

section Wakes

variable {s s' : State Λ} {t : Nat}

structure State.Awaits (s : State Λ) (t : Nat) (w : Wait Λ) : Prop where
  wakes : (s.coros t).wakes (s.coros t).turn = 0
  queued : (s.coros t).queued = 0
  hook : (s.coros t).hook = some w
  listed : ∀ k l, w.places[k]? = some (.listed l) → s.Link t k l
  sleeping : ∀ k, w.places[k]? = some .sleep → ((s.coros t).sleepers k).Live (s.coros t).turn

/-- A waker has popped some nodes of a list and put the handles of some of them into a run
queue. -/
structure State.Roused (s : State Λ) (l : Λ) (popped fired : List Node) (s' : State Λ) : Prop where
  list : s.lists l = popped ++ s'.lists l
  others : ∀ l', l' ≠ l → s'.lists l' = s.lists l'
  sublist : fired.Sublist popped
  once : (fired.map Node.coro).Nodup
  decided : ∀ n ∈ popped, (s'.coros n.coro).winner ≠ .none
  enqueued : ∀ n ∈ fired, (s.coros n.coro).winner = .none ∧ (s.coros n.coro).wakes n.turn = 0 ∧
    s'.coros n.coro = { (s.coros n.coro).enqueue n.turn with winner := .index n.index }
  same : ∀ t, t ∉ fired.map Node.coro → s'.coros t = s.coros t

/-- Nobody has won a suspension in which a node or a timer can wake the coroutine. -/
theorem Coro.Ok.unwoken {c : Coro Λ} {link : Nat → Λ → Prop} (h : c.Ok link) {k : Nat} {x : Place Λ}
    (hplace : c.phase.place k = some x) (hw : c.winner = .none)
    (hplain : ∀ l, x = .listed l → link k l) :
    c.hookPc = .idle ∧ c.wakes c.turn = 0 ∧ c.queued = 0 := by
  obtain ⟨hopen, -⟩ := h.opened hplace hw
  have hstore : c.hookPc ≠ .store := by
    intro hs
    obtain ⟨-, l, rfl, -⟩ := Phase.place_plain (hopen.stored hs) hplace
    have hidle := (hopen.plain (hopen.stored hs) k l (hplain l rfl)).2
    rw [hs] at hidle
    cases hidle
  obtain ⟨hpc, hwakes, hqueued, -⟩ := hopen.quiet hw hstore
  exact ⟨hpc, hwakes, hqueued⟩

theorem Inv.unwoken_of_mem (h : Inv s) {n : Node} {l : Λ} (hmem : n ∈ s.lists l)
    (hw : (s.coros n.coro).winner = .none) : (s.coros n.coro).wakes n.turn = 0 := by
  have hturn := h.turns l n hmem
  have hlink : s.Link n.coro n.index l := by
    rw [State.Link, State.node, ← hturn]
    exact hmem
  have hplace := (h.coros n.coro).place n.index l hlink
  obtain ⟨-, hwakes, -⟩ := (h.coros n.coro).unwoken hplace hw fun l' hl => by cases hl; exact hlink
  rw [hturn]
  exact hwakes

theorem State.Roused.refl (s : State Λ) (l : Λ) : s.Roused l [] [] s :=
  ⟨rfl, fun _ _ => rfl, .slnil, List.nodup_nil, nofun, nofun, fun _ _ => rfl⟩

theorem Inv.awaits (h : Inv s) (harmed : (s.coros t).Armed) {w : Wait Λ}
    (hphase : (s.coros t).phase = .suspended w) (hw : (s.coros t).winner = .none)
    (hidle : (s.coros t).hookPc = .idle) : s.Awaits t w := by
  obtain ⟨hopen, -⟩ := (h.coros t).at_kind (show _ = Kind.parked by rw [hphase]; rfl)
  obtain ⟨-, hwakes, hqueued, -⟩ := hopen.quiet hw (by rw [hidle]; nofun)
  have hplace : ∀ k, (s.coros t).phase.place k = w.places[k]? := fun k => by rw [hphase]; rfl
  refine ⟨hwakes, hqueued, harmed.hooked w (.inr hphase) hw hidle, fun k l hk => ?_, fun k hk => ?_⟩
  · exact hopen.linked (by rw [hphase]; rfl) hw hidle k l ((hplace k).trans hk)
  · exact harmed.live hw ((hplace k).trans hk) (by rw [hphase]; rfl)

/-- `on_fire` of operation `k` has put the handle into a run queue. -/
structure Coro.FiredBy (c : Coro Λ) (k : Nat) : Prop where
  winner : c.winner = .index k
  wakes : c.wakes c.turn = 1
  queued : c.queued = 1
  timer : (c.sleepers k).timer = .last ∨ (c.sleepers k).timer = .ended

theorem Coro.FiredBy.onFire {k : Nat} (h : (s.coros t).FiredBy k) :
    ((s.onFire t k).coros t).FiredBy k := by
  obtain ⟨hwinner, hwakes, hqueued, htimer | htimer⟩ := h
  · simp only [State.onFire, htimer, State.set, Function.update_self]
    refine ⟨hwinner, hwakes, hqueued, .inr ?_⟩
    rw [Coro.setTimer, Coro.setSleeper_self]
  · simp only [State.onFire, htimer]
    exact ⟨hwinner, hwakes, hqueued, .inr htimer⟩

theorem State.firedBy_of_claim {k : Nat} (htimer : ((s.coros t).sleepers k).timer =
      .claim (s.coros t).turn) (hw : (s.coros t).winner = .none)
    (hwakes : (s.coros t).wakes (s.coros t).turn = 0) (hqueued : (s.coros t).queued = 0) :
    (((fun s : State Λ => s.onFire t k)^[2] s).coros t).FiredBy k := by
  have hclaim : s.onFire t k = s.set t { (s.coros t).setTimer k (.enqueue (s.coros t).turn) with
      winner := .index k } := by
    simp only [State.onFire, htimer, if_pos hw]
  have hcoro : (s.onFire t k).coros t = { (s.coros t).setTimer k (.enqueue (s.coros t).turn) with
      winner := .index k } := by
    rw [hclaim]
    exact Function.update_self ..
  show (((s.onFire t k).onFire t k).coros t).FiredBy k
  generalize s.onFire t k = s₁ at hcoro ⊢
  have hsleeper : ((s₁.coros t).sleepers k).timer = .enqueue (s.coros t).turn := by
    rw [hcoro, Coro.setTimer, Coro.setSleeper_self]
  have hnext : (s₁.onFire t k).coros t =
      ((s₁.coros t).setTimer k .last).enqueue (s.coros t).turn := by
    simp only [State.onFire, hsleeper, State.set, Function.update_self]
  have hturn : (s₁.coros t).turn = (s.coros t).turn := by rw [hcoro]; rfl
  refine ⟨?_, ?_, ?_, .inl ?_⟩
  · rw [hnext]
    show (s₁.coros t).winner = .index k
    rw [hcoro]
  · rw [hnext]
    show Function.update (s₁.coros t).wakes (s.coros t).turn _ (s₁.coros t).turn = 1
    rw [hturn, Function.update_self, hcoro]
    show (s.coros t).wakes (s.coros t).turn + 1 = 1
    rw [hwakes]
  · rw [hnext]
    show (s₁.coros t).queued + 1 = 1
    rw [hcoro]
    show (s.coros t).queued + 1 = 1
    rw [hqueued]
  · rw [hnext]
    show (((s₁.coros t).setTimer k .last).sleepers k).timer = .last
    rw [Coro.setTimer, Coro.setSleeper_self]

theorem State.onFire_takes {k n : Nat} (htimer : ((s.coros t).sleepers k).timer = .exchange)
    (hwaiter : ((s.coros t).sleepers k).waiter = some n) :
    (s.onFire t k).coros t = (s.coros t).setSleeper k ⟨.claim n, none⟩ := by
  simp only [State.onFire, htimer, hwaiter, State.set, Function.update_self]

theorem State.onFire_begins {k : Nat} (htimer : ((s.coros t).sleepers k).timer = .armed) :
    (s.onFire t k).coros t = (s.coros t).setTimer k .exchange := by
  simp only [State.onFire, htimer, State.set, Function.update_self]

theorem State.firedBy_of_exchange {k : Nat} (htimer : ((s.coros t).sleepers k).timer = .exchange)
    (hwaiter : ((s.coros t).sleepers k).waiter = some (s.coros t).turn)
    (hw : (s.coros t).winner = .none) (hwakes : (s.coros t).wakes (s.coros t).turn = 0)
    (hqueued : (s.coros t).queued = 0) :
    (((fun s : State Λ => s.onFire t k)^[3] s).coros t).FiredBy k := by
  have hcoro := onFire_takes htimer hwaiter
  rw [Function.iterate_succ_apply]
  refine firedBy_of_claim ?_ ?_ ?_ ?_ <;> rw [hcoro]
  · rw [Coro.setSleeper_self]
    rfl
  · exact hw
  · exact hwakes
  · exact hqueued

/-- The accesses of `on_fire`, up to four of them, wake a coroutine that waits for it. -/
theorem State.firedBy_of_live {k : Nat} (hlive : ((s.coros t).sleepers k).Live (s.coros t).turn)
    (hw : (s.coros t).winner = .none) (hwakes : (s.coros t).wakes (s.coros t).turn = 0)
    (hqueued : (s.coros t).queued = 0) :
    (((fun s : State Λ => s.onFire t k)^[4] s).coros t).FiredBy k := by
  obtain ⟨hwaiter, htimer | htimer⟩ | htimer := hlive
  · have hcoro := onFire_begins htimer
    rw [Function.iterate_succ_apply]
    refine firedBy_of_exchange ?_ ?_ ?_ ?_ ?_ <;> rw [hcoro]
    · rw [Coro.setTimer, Coro.setSleeper_self]
    · rw [Coro.setTimer, Coro.setSleeper_self]
      exact hwaiter
    · exact hw
    · exact hwakes
    · exact hqueued
  · rw [Function.iterate_succ_apply']
    exact (firedBy_of_exchange htimer hwaiter hw hwakes hqueued).onFire
  · rw [Function.iterate_succ_apply', Function.iterate_succ_apply']
    exact (firedBy_of_claim htimer hw hwakes hqueued).onFire.onFire

theorem Inv.firedBy (h : Inv s) {k : Nat} (hplace : (s.coros t).phase.place k = some .sleep)
    (hw : (s.coros t).winner = .none)
    (hlive : ((s.coros t).sleepers k).Live (s.coros t).turn) :
    (((fun s : State Λ => s.onFire t k)^[4] s).coros t).FiredBy k := by
  obtain ⟨-, hwakes, hqueued⟩ := (h.coros t).unwoken hplace hw fun _ hl => by cases hl
  exact State.firedBy_of_live hlive hw hwakes hqueued

variable [DecidableEq Λ]

theorem State.Roused.fire {l : Λ} {n : Node} {nodes popped fired : List Node}
    (hlist : s.lists l = n :: nodes) (hw : (s.coros n.coro).winner = .none)
    (hwakes : (s.coros n.coro).wakes n.turn = 0)
    (h : ((s.setList l nodes).fired n).Roused l popped fired s') :
    s.Roused l (n :: popped) (n :: fired) s' := by
  have hself := Function.update_self n.coro
    { (s.coros n.coro).enqueue n.turn with winner := .index n.index } s.coros
  have hother : ∀ t, t ≠ n.coro → ((s.setList l nodes).fired n).coros t = s.coros t :=
    fun t ht => Function.update_of_ne ht ..
  have hnot : n.coro ∉ fired.map Node.coro := by
    intro hmem
    obtain ⟨m, hm, hcoro⟩ := List.mem_map.mp hmem
    have hnone := (h.enqueued m hm).1
    rw [hcoro, State.fired_winner] at hnone
    cases hnone
  have hfinal : s'.coros n.coro =
      { (s.coros n.coro).enqueue n.turn with winner := .index n.index } :=
    (h.same n.coro hnot).trans hself
  refine ⟨?_, fun l' hl => (h.others l' hl).trans (Function.update_of_ne hl ..),
    h.sublist.cons_cons n, List.nodup_cons.mpr ⟨hnot, h.once⟩, fun m hm => ?_, fun m hm => ?_,
    fun t ht => ?_⟩
  · rw [hlist, List.cons_append, ← h.list]
    exact congrArg (List.cons n) (s.setList_lists l nodes).symm
  · obtain rfl | hm := List.mem_cons.mp hm
    · rw [hfinal]
      nofun
    · exact h.decided m hm
  · obtain rfl | hm := List.mem_cons.mp hm
    · exact ⟨hw, hwakes, hfinal⟩
    · have hne : m.coro ≠ n.coro := fun heq => hnot (List.mem_map.mpr ⟨m, hm, heq⟩)
      rw [← hother m.coro hne]
      exact h.enqueued m hm
  · rw [List.map_cons, List.mem_cons, not_or] at ht
    rw [h.same t ht.2, hother t ht.1]

/-- The round has popped `n`, and somebody has won its suspension already. -/
theorem State.Roused.skip {l : Λ} {n : Node} {nodes popped fired : List Node}
    (hlist : s.lists l = n :: nodes) (hw : (s.coros n.coro).winner ≠ .none)
    (h : (s.setList l nodes).Roused l popped fired s') : s.Roused l (n :: popped) fired s' := by
  have hnot : n.coro ∉ fired.map Node.coro := by
    intro hmem
    obtain ⟨m, hm, hcoro⟩ := List.mem_map.mp hmem
    have hnone := (h.enqueued m hm).1
    rw [hcoro] at hnone
    exact hw hnone
  refine ⟨?_, fun l' hl => (h.others l' hl).trans (Function.update_of_ne hl ..), h.sublist.cons n,
    h.once, fun m hm => ?_, fun m hm => h.enqueued m hm, fun t ht => h.same t ht⟩
  · rw [hlist, List.cons_append, ← h.list]
    exact congrArg (List.cons n) (s.setList_lists l nodes).symm
  · obtain rfl | hm := List.mem_cons.mp hm
    · rw [h.same _ hnot]
      exact hw
    · exact h.decided m hm

/-- A waker goes on until it has woken `count` coroutines or the list is empty. -/
theorem Inv.roused_of_wakeLoop (h : Inv s) {l : Λ} (fuel count : Nat)
    (hfuel : (s.lists l).length ≤ fuel) :
    ∃ popped fired, s.Roused l popped fired (State.wakeLoop l fuel count s) ∧
      (fired.length = count ∨
        fired.length < count ∧ (State.wakeLoop l fuel count s).lists l = []) := by
  induction fuel generalizing count s with
  | zero =>
    have hnil : s.lists l = [] := List.length_eq_zero_iff.mp (Nat.le_zero.mp hfuel)
    refine ⟨[], [], .refl s l, ?_⟩
    rcases Nat.eq_zero_or_pos count with rfl | hpos
    · exact .inl rfl
    · exact .inr ⟨hpos, hnil⟩
  | succ fuel ih =>
    cases count with
    | zero => exact ⟨[], [], .refl s l, .inl rfl⟩
    | succ count =>
      rw [State.wakeLoop_succ]
      have hnext := h.popFire l
      cases hlist : s.lists l with
      | nil =>
        rw [State.popFire_nil hlist]
        exact ih h _ (by rw [hlist]; exact Nat.zero_le _)
      | cons n nodes =>
        have hlen : nodes.length ≤ fuel := by
          rw [hlist, List.length_cons] at hfuel
          exact Nat.le_of_succ_le_succ hfuel
        have htail := s.setList_lists l nodes
        by_cases hw : (s.coros n.coro).winner = .none
        · rw [State.popFire_live hlist hw] at hnext ⊢
          obtain ⟨popped, fired, hroused, hcount⟩ := ih hnext count (htail.symm ▸ hlen)
          have hwakes := h.unwoken_of_mem (hlist ▸ List.mem_cons_self) hw
          refine ⟨n :: popped, n :: fired, .fire hlist hw hwakes hroused, ?_⟩
          rw [List.length_cons]
          exact hcount.imp (fun hc => by omega) fun hc => ⟨by omega, hc.2⟩
        · rw [State.popFire_dead hlist hw] at hnext ⊢
          obtain ⟨popped, fired, hroused, hcount⟩ := ih hnext (count + 1) (htail.symm ▸ hlen)
          exact ⟨n :: popped, fired, .skip hlist hw hroused, hcount⟩

theorem Inv.roused_of_wake (h : Inv s) (l : Λ) (count : Nat) :
    ∃ popped fired, s.Roused l popped fired (s.wake l count) ∧
      (fired.length = count ∨ fired.length < count ∧ (s.wake l count).lists l = []) :=
  h.roused_of_wakeLoop _ _ (Nat.le_refl _)

/-- `on_cancel` of a coroutine that nobody has woken removes the node or claims the word. -/
theorem Inv.kicks (h : Inv s) {w : Wait Λ} (hhook : (s.coros t).hook = some w)
    (hw : (s.coros t).winner = .none) (hidle : (s.coros t).hookPc = .idle) :
    ((s.onCancel t w).coros t).hookPc ≠ .idle := by
  obtain ⟨hopen, -⟩ := (h.coros t).hooked (.inl (by rw [hhook]; nofun))
  cases w with
  | op l =>
    have hremove : (s.remove t 0 l).1 = true := by
      refine hopen.removed ?_ ?_ hw hidle
      · obtain hp | hp := hopen.hooked _ hhook <;> rw [hp] <;> rfl
      · obtain hp | hp := hopen.hooked _ hhook <;> rw [hp] <;> rfl
    rw [State.onCancel_op, if_pos hremove]
    simp [State.set]
  | select ops =>
    rw [State.onCancel_select, if_pos hw]
    simp [State.set]

theorem woken_of_enqueueSelf {w : Wait Λ} (hphase : (s.coros t).phase = .suspended w)
    (hpc : (s.coros t).hookPc = .enqueue) (hwakes : (s.coros t).wakes (s.coros t).turn = 0) :
    ∃ s', Step true s s' ∧ (s'.coros t).phase = .suspended w ∧
      (s'.coros t).turn = (s.coros t).turn ∧ (s'.coros t).wakes (s.coros t).turn = 1 := by
  refine ⟨_, .enqueueSelf t hpc, ?_⟩
  simp only [State.set, Function.update_self, Coro.enqueue, hphase, hwakes, and_self]

/-- Whoever has won puts the handle into a run queue, with one or two steps of its own. -/
theorem Inv.owed (h : Inv s) {w : Wait Λ} (hphase : (s.coros t).phase = .suspended w)
    (hwon : (s.coros t).winner ≠ .none ∨ (s.coros t).hookPc ≠ .idle) :
    ∃ s', Relation.ReflTransGen (Step true) s s' ∧ (s'.coros t).phase = .suspended w ∧
      (s'.coros t).turn = (s.coros t).turn ∧ (s'.coros t).wakes (s.coros t).turn = 1 := by
  obtain ⟨hopen, -⟩ := (h.coros t).at_kind (show _ = Kind.parked by rw [hphase]; rfl)
  obtain ⟨who, haccount, hwho⟩ := hopen.account
  generalize hwakes : (s.coros t).wakes (s.coros t).turn = wakes at haccount
  generalize hwinner : (s.coros t).winner = winner at haccount hwon
  generalize hpc : (s.coros t).hookPc = pc at haccount hwon
  cases haccount with
  | quiet => exact absurd hwon (by simp)
  | removed =>
    obtain ⟨s', hstep, hphase', hturn', hwakes'⟩ := woken_of_enqueueSelf (t := t) (w := w)
      (s := s.set t { s.coros t with winner := .cancelled, hookPc := .enqueue })
      (by simp [State.set, hphase]) (by simp [State.set]) (by simp [State.set, hwakes])
    simp only [State.set, Function.update_self] at hturn' hwakes'
    exact ⟨s', (Relation.ReflTransGen.single (.storeOwn t hpc)).tail hstep, hphase', hturn', hwakes'⟩
  | firing k =>
    obtain ⟨n, htimer⟩ := (hwho k).mpr rfl
    obtain ⟨rfl, -⟩ := ((h.coros t).sleeps k).enqueue n htimer
    refine ⟨_, .single (.onFire t k), ?_⟩
    simp only [State.onFire, htimer, State.set, Function.update_self, Coro.enqueue, Coro.setTimer,
      Coro.setSleeper, hphase, hwakes, and_self]
  | fired | kicked => exact ⟨s, .refl, hphase, rfl, hwakes⟩
  | cancelling =>
    obtain ⟨s', hstep, hafter⟩ := woken_of_enqueueSelf hphase hpc hwakes
    exact ⟨s', .single hstep, hafter⟩

end Wakes

end Uvent.Sync.Suspension
