import Mathlib.Tactic.Common
import Uvent.Net.MultishotRecv

/-!
# References of the multishot receive

The receive takes a reference when it is armed.  The completion that disarms it drops the
reference through the back pointer of the operation, which is not set: every such completion
leaves one reference behind.
-/

namespace Uvent.Net.Uring

variable {α : Type} {bufRing : Bool} {s s' : State α} {e : Event}

/-- Arming finds an open descriptor, a submission entry and a header that takes references,
and so do a timeout and a copy of a handle. -/
def Admitted (s : State α) : Event → Prop
  | .arm sqe => sqe = true ∧ s.fdOpen = true ∧ s.closed = false ∧ s.count < countMask
  | .setTimeout => s.closed = false ∧ s.count < countMask
  | .copy => s.count < countMask
  | _ => True

def Balanced (s : State α) : Prop :=
  s.count = s.handles + s.op.armed.toNat + s.timer.toNat

/-- A reader waits for a receive that is armed, and one that is armed will be completed: it is
armed in the kernel, or the completion that disarms it is there. -/
structure Attended (s : State α) : Prop where
  waiting : s.op.waiting = true → s.op.armed = true
  armed : s.op.armed = true → s.kernel = true ∨ ∃ c ∈ s.cqes, c.more = false

structure Referenced (s : State α) : Prop where
  header : s.op.header = false
  count : s.count = s.handles + s.op.armed.toNat + s.timer.toNat + s.disarms

theorem referenced_new (bufs : List Nat) (fdOpen : Bool) :
    Referenced (State.new bufs fdOpen : State α) := ⟨rfl, rfl⟩

theorem Referenced.pass (h : Referenced s) (hheader : s'.op.header = s.op.header)
    (hcount : s'.count = s.count) (hhandles : s'.handles = s.handles)
    (harmed : s'.op.armed = s.op.armed) (htimer : s'.timer = s.timer)
    (hdisarms : s'.disarms = s.disarms) : Referenced s' := by
  refine ⟨hheader.trans h.header, ?_⟩
  rw [hcount, hhandles, harmed, htimer, hdisarms]
  exact h.count

theorem Referenced.release (hheader : s.op.header = false)
    (hcount : s.count = s.handles + s.op.armed.toNat + s.timer.toNat + s.disarms + 1) :
    Referenced s.release := by
  have hpos : s.count ≠ 0 := by omega
  unfold State.release
  dsimp only
  rw [if_neg hpos]
  split
  · rename_i hlast
    refine ⟨hheader, ?_⟩
    show s.count - 1 = s.handles + s.op.armed.toNat + 0 + s.disarms
    omega
  · refine ⟨hheader, ?_⟩
    show s.count - 1 = s.handles + s.op.armed.toNat + s.timer.toNat + s.disarms
    omega

theorem addRefForMsRecv_open (hclosed : s.closed = false) (hcount : s.count < countMask) :
    s.addRefForMsRecv = { s with count := s.count + 1 } := by
  unfold State.addRefForMsRecv
  rw [hclosed, if_neg Bool.false_ne_true, if_neg (Nat.ne_of_lt hcount)]

theorem submitRecvMultishot_open (hopen : s.fdOpen = true) :
    s.submitRecvMultishot true =
      { s with op := { s.op with armed := true }, kernel := true } := by
  unfold State.submitRecvMultishot
  rw [hopen]
  rfl

/-- The receive is armed with a reference, and the reader waits for it. -/
theorem arm_open (hopen : s.fdOpen = true) (hclosed : s.closed = false)
    (hcount : s.count < countMask) (n : Nat) :
    s.arm true n =
      { s with
        op := { s.op with armed := true, waiting := true },
        kernel := true, count := s.count + 1, reader := .suspended n } := by
  unfold State.arm
  dsimp only
  rw [submitRecvMultishot_open hopen, if_pos rfl]
  have hadd := addRefForMsRecv_open
    (s := { s with op := { s.op with armed := true }, kernel := true }) hclosed hcount
  exact congrArg (State.suspend · n) hadd

theorem wake_fields (s : State α) : s.wake.op.header = s.op.header ∧ s.wake.op.armed = s.op.armed ∧
    s.wake.op.waiting = false ∧ s.wake.count = s.count ∧ s.wake.handles = s.handles ∧
    s.wake.timer = s.timer ∧ s.wake.disarms = s.disarms ∧ s.wake.kernel = s.kernel ∧
    s.wake.cqes = s.cqes := by
  unfold State.wake
  split
  · exact ⟨rfl, rfl, rfl, rfl, rfl, rfl, rfl, rfl, rfl⟩
  · rename_i hwaiting
    exact ⟨rfl, rfl, Bool.not_eq_true _ ▸ hwaiting, rfl, rfl, rfl, rfl, rfl, rfl⟩

theorem pushCqe_flags (op : MultishotRecvOp) (c : Cqe) :
    (pushCqe op c).armed = op.armed ∧ (pushCqe op c).header = op.header := by
  cases c <;> exact ⟨rfl, rfl⟩

/-- What a completion leaves when the back pointer is not set: no reference is dropped. -/
theorem handleCqe_fields (hheader : s.op.header = false) (c : Cqe) :
    (s.handleCqe c).op.header = false ∧
      (s.handleCqe c).op.armed = (s.op.armed && c.more) ∧
      (s.handleCqe c).op.waiting = false ∧ (s.handleCqe c).count = s.count ∧
      (s.handleCqe c).handles = s.handles ∧ (s.handleCqe c).timer = s.timer ∧
      (s.handleCqe c).disarms = s.disarms + (s.op.armed && !c.more).toNat ∧
      (s.handleCqe c).kernel = s.kernel ∧ (s.handleCqe c).cqes = s.cqes := by
  obtain ⟨harmed, hback⟩ := pushCqe_flags s.op c
  obtain ⟨h₁, h₂, h₃, h₄, h₅, h₆, h₇, h₈, h₉⟩ := wake_fields
    { s with op := { pushCqe s.op c with armed := (pushCqe s.op c).armed && c.more } }
  have hback' := h₁.trans (hback.trans hheader)
  have harmed' := h₂.trans (congrArg (· && c.more) harmed)
  unfold State.handleCqe
  dsimp only
  cases hdisarm : s.op.armed && !c.more with
  | true =>
      rw [if_pos rfl, if_neg (by rw [hback']; exact Bool.false_ne_true)]
      exact ⟨hback', harmed', h₃, h₄, h₅, h₆, congrArg (· + 1) h₇, h₈, h₉⟩
  | false =>
      rw [if_neg Bool.false_ne_true]
      exact ⟨hback', harmed', h₃, h₄, h₅, h₆, h₇, h₈, h₉⟩

theorem step_referenced (h : Referenced s) (hok : Admitted s e) (hstep : Step bufRing s e s') :
    Referenced s' := by
  have hcount := h.count
  cases hstep with
  | awaitArm n sqe reader unready unarmed =>
      obtain ⟨rfl, hopen, hclosed, hroom⟩ := hok
      rw [arm_open hopen hclosed hroom]
      refine ⟨h.header, ?_⟩
      rw [unarmed] at hcount
      show s.count + 1 = s.handles + 1 + s.timer.toNat + s.disarms
      rw [hcount]
      show s.handles + 0 + s.timer.toNat + s.disarms + 1 = _
      omega
  | handleCqe c rest next =>
      obtain ⟨h₁, h₂, -, h₄, h₅, h₆, h₇, -, -⟩ :=
        handleCqe_fields (s := { s with cqes := rest }) h.header c
      refine ⟨h₁, ?_⟩
      rw [h₂, h₄, h₅, h₆, h₇]
      show s.count = s.handles + (s.op.armed && c.more).toNat + s.timer.toNat +
        (s.disarms + (s.op.armed && !c.more).toNat)
      rw [hcount]
      have hsum : s.op.armed.toNat = (s.op.armed && c.more).toNat + (s.op.armed && !c.more).toNat := by
        cases s.op.armed <;> cases c.more <;> rfl
      omega
  | copy handle =>
      refine ⟨h.header, ?_⟩
      show (s.count + 1) % (countMask + 1) = s.handles + 1 + s.op.armed.toNat + s.timer.toNat +
        s.disarms
      rw [Nat.mod_eq_of_lt (Nat.succ_lt_succ hok), hcount]
      omega
  | drop handle idle =>
      refine Referenced.release h.header ?_
      show s.count = s.handles - 1 + s.op.armed.toNat + s.timer.toNat + s.disarms + 1
      omega
  | setTimeout handle unset =>
      obtain ⟨hclosed, hroom⟩ := hok
      rw [addRefForMsRecv_open hclosed hroom]
      refine ⟨h.header, ?_⟩
      rw [unset] at hcount
      show s.count + 1 = s.handles + s.op.armed.toNat + 1 + s.disarms
      rw [hcount]
      show s.handles + s.op.armed.toNat + 0 + s.disarms + 1 = _
      omega
  | timeout set | shutdown handle set =>
      refine Referenced.release h.header ?_
      rw [set] at hcount
      show s.count = s.handles + s.op.armed.toNat + 0 + s.disarms + 1
      rw [hcount]
      show s.handles + s.op.armed.toNat + 1 + s.disarms = _
      omega
  | _ => exact h.pass rfl rfl rfl rfl rfl rfl

/-! ### Readers that wait -/

theorem attended_new (bufs : List Nat) (fdOpen : Bool) :
    Attended (State.new bufs fdOpen : State α) := ⟨nofun, nofun⟩

theorem Attended.pass (h : Attended s) (hwaiting : s'.op.waiting = true → s.op.waiting = true)
    (harmed : s'.op.armed = s.op.armed) (hkernel : s'.kernel = s.kernel)
    (hcqes : s'.cqes = s.cqes) : Attended s' := by
  refine ⟨fun hwait => harmed ▸ h.waiting (hwaiting hwait), fun harm => ?_⟩
  rw [hkernel, hcqes]
  exact h.armed (harmed ▸ harm)

theorem Attended.release (h : Attended s) : Attended s.release := by
  unfold State.release
  dsimp only
  split <;> exact h.pass id rfl rfl rfl

theorem Attended.complete (h : Attended s) (hop : s'.op = s.op) {c : Cqe}
    (hcqes : s'.cqes = s.cqes ++ [c]) (hkernel : s'.kernel = c.more) : Attended s' := by
  refine ⟨hop ▸ h.waiting, fun _ => ?_⟩
  rw [hcqes, hkernel]
  cases hmore : c.more with
  | true => exact .inl rfl
  | false => exact .inr ⟨c, List.mem_append_right _ (List.mem_singleton_self c), hmore⟩

theorem step_attended (h : Attended s) (hheader : s.op.header = false) (hok : Admitted s e)
    (hstep : Step bufRing s e s') : Attended s' := by
  cases hstep with
  | awaitArmed n reader unready armed => exact ⟨fun _ => armed, h.armed⟩
  | awaitArm n sqe reader unready unarmed =>
      obtain ⟨rfl, hopen, hclosed, hroom⟩ := hok
      rw [arm_open hopen hclosed hroom]
      exact ⟨fun _ => rfl, fun _ => .inl rfl⟩
  | resume n reader => exact h.pass nofun rfl rfl rfl
  | fill b k rest more armed buffer some there => exact h.complete rfl rfl rfl
  | terminate res more armed => exact h.complete (c := .terminal res more) rfl rfl rfl
  | handleCqe c rest next =>
      obtain ⟨-, h₂, h₃, -, -, -, -, h₈, h₉⟩ :=
        handleCqe_fields (s := { s with cqes := rest }) hheader c
      refine ⟨fun hwait => ?_, fun harm => ?_⟩
      · rw [h₃] at hwait
        cases hwait
      · rw [h₂] at harm
        rw [h₈, h₉]
        obtain ⟨harmed, hmore⟩ := Bool.and_eq_true_iff.mp harm
        refine (h.armed harmed).imp_right fun ⟨c', hc', hlast⟩ => ?_
        rw [next] at hc'
        rcases List.mem_cons.mp hc' with rfl | hc'
        · rw [hmore] at hlast
          cases hlast
        · exact ⟨c', hc', hlast⟩
  | drop | timeout | shutdown =>
      refine Attended.release ?_
      exact h.pass id rfl rfl rfl
  | setTimeout handle unset =>
      obtain ⟨hclosed, hroom⟩ := hok
      rw [addRefForMsRecv_open hclosed hroom]
      exact h.pass id rfl rfl rfl
  | _ => exact h.pass id rfl rfl rfl

theorem referenced_of_runs (h : Runs bufRing Admitted s) : Referenced s ∧ Attended s := by
  refine h.holds ?_ fun _ ih hmove meets => ?_
  · rintro _ ⟨bufs, fdOpen, -, rfl⟩
    exact ⟨referenced_new bufs fdOpen, attended_new bufs fdOpen⟩
  · exact ⟨step_referenced ih.1 meets hmove.2, step_attended ih.2 ih.1.header meets hmove.2⟩

/-- When nobody is refused a reference and arming succeeds, a reader waits only while a receive
is armed, and the count is right exactly as long as no completion has disarmed the receive. -/
theorem balanced_of_admittedRuns {α : Type} (bufRing : Bool) (s : State α)
    (hruns : Runs bufRing Admitted s) : Attended s ∧ (Balanced s ↔ s.disarms = 0) := by
  obtain ⟨hreferenced, hattended⟩ := referenced_of_runs hruns
  have hcount := hreferenced.count
  refine ⟨hattended, fun hbalanced => ?_, fun hnone => ?_⟩
  · unfold Balanced at hbalanced
    omega
  · unfold Balanced
    omega

/-- A socket with a timer and a reader that waits. -/
theorem waiting_balanced : ∃ s : State Nat, s.count = 3 ∧ s.op.waiting = true ∧ s.disarms = 0 ∧
    Attended s ∧ (Balanced s ↔ s.disarms = 0) := by
  have h₁ : Runs true Admitted (State.new [0] true : State Nat) :=
    .start ⟨[0], true, by decide, rfl⟩
  have h₂ := h₁.step ⟨rfl, .setTimeout (by decide) rfl⟩ ⟨rfl, by decide⟩
  have h₃ := ((h₂.step ⟨rfl, .call false 1 (by decide) (by decide) rfl⟩).step
    ⟨rfl, .enter false 1 rfl rfl nofun⟩).step ⟨rfl, .loopAwait 1 rfl rfl nofun⟩
  have h₄ := h₃.step ⟨rfl, .awaitArm 1 true rfl rfl rfl⟩ ⟨rfl, rfl, rfl, by decide⟩
  exact ⟨_, rfl, rfl, rfl, balanced_of_admittedRuns true _ h₄⟩

/-- A completion that disarms the receive leaves its reference behind, and a reader that finds
no submission entry waits for a receive that is not armed. -/
theorem disarmed_not_balanced :
    (∃ s : State Nat, Runs true (fun _ _ => True) s ∧ s.disarms = 1 ∧ ¬ Balanced s) ∧
    ∃ s : State Nat, Runs true (fun _ _ => True) s ∧ s.op.waiting = true ∧ ¬ Attended s := by
  have h₁ : Runs true (fun _ _ => True) (State.new [0] true : State Nat) :=
    .start ⟨[0], true, by decide, rfl⟩
  have h₂ := ((h₁.step ⟨rfl, .call false 1 (by decide) (by decide) rfl⟩).step
    ⟨rfl, .enter false 1 rfl rfl nofun⟩).step ⟨rfl, .loopAwait 1 rfl rfl nofun⟩
  constructor
  · have h₃ := ((h₂.step ⟨rfl, .awaitArm 1 true rfl rfl rfl⟩).step
      ⟨rfl, .terminate (-enobufs) false rfl⟩).step ⟨rfl, .handleCqe _ [] rfl⟩
    refine ⟨_, h₃, rfl, ?_⟩
    show ¬ (2 = 1 + 0 + 0)
    decide
  · have h₃ := h₂.step ⟨rfl, .awaitArm 1 false rfl rfl rfl⟩
    refine ⟨_, h₃, rfl, fun hattended => ?_⟩
    exact Bool.noConfusion (hattended.waiting rfl)

end Uvent.Net.Uring
