import Uvent.Net.ConnectTimer

/-!
# What `async_connect` does to the count

A reference of the timer is the armed timer's, or with the coroutine between its
`set_timeout_ms` and the wheel, or with the callback; behind the cancel it is with the
coroutine again, which drops it if the timeout is positive, whatever the cancel has said.
-/

namespace Uvent.Net.Connecting

open Uvent.Lib.BitField Uvent.Net.StateWord

def Pc.owns (timeout : Millis) : Pc → Nat
  | .setClear | .setArm | .dropRef => 1
  | .clearId => (positive timeout).toNat
  | _ => 0

def CallbackPc.owns : CallbackPc → Nat
  | .idle => 0
  | .reset adopted => adopted.toNat
  | _ => 1

/-- `set_timeout_ms` has found no timer and has not armed one. -/
def Pc.arms : Pc → Bool
  | .setAddRef | .setClear | .setArm => true
  | _ => false

def Pc.ended : Pc → Bool
  | .clearId | .dropRef | .bumpEpoch | .done none => true
  | _ => false

/-- The timer has left the wheel, and `timer_id` still names it. -/
def CallbackPc.popped : CallbackPc → Bool
  | .claim | .reset _ => true
  | _ => false

def Pc.plain : Pc → Bool
  | .resolving | .setLoad | .setUpdate | .connecting | .parked => true
  | .checkTimeout | .checkError | .cancelLoad | .done (some _) => true
  | _ => false

structure Refs (timeout : Millis) (w : Connection) : Prop where
  count : countOf w.header.state =
    w.header.handles + w.header.armed + w.pc.owns timeout + w.callback.owns
  ledger : w.header.taken =
    w.header.dropped + w.header.armed + w.pc.owns timeout + w.callback.owns
  live : 0 < w.header.handles

/-- `timer_id` names the timer in the wheel, whose reference is not claimed. -/
structure Timed (build : Build) (w : Connection) : Prop where
  named : ∀ timer, w.header.wheel = some timer → timer.id = w.header.timerId ∧ w.header.timerId ≠ 0
  fresh : 0 < w.header.nextTimerId
  unclaimed : build = .shared ∨ w.header.wheel.isSome = true ∨ w.callback = .claim ∨
    w.pc = .setArm → w.header.claimed = false
  upright : w.header.teardownPending = false

structure Places (build : Build) (w : Connection) : Prop where
  arms : w.pc.arms = true → w.header.timerId = 0
  cancels : ∀ id, w.pc = .cancel id → ∀ timer, w.header.wheel = some timer → timer.id = id
  ended : w.pc.ended = true → w.header.wheel = none ∧ w.callback = .idle
  away : build = .reuseaddr → w.callback ≠ .idle → w.pc.suspended = true
  home : w.callback = .claim → build = .reuseaddr
  popped : w.callback.popped = true → w.header.wheel = none ∧ w.header.timerId ≠ 0

structure Kept (build : Build) (timeout : Millis) (w : Connection) : Prop where
  refs : Refs timeout w
  timed : Timed build w
  places : Places build w

section Kept

variable {build : Build} {timeout : Millis} {w w' : Connection} {s : Header} {pc : Pc}
  {callback : CallbackPc}

theorem kept_start (h : Prior build s) : Kept build timeout ⟨s, .resolving, .idle⟩ := by
  refine ⟨⟨h.count, h.ledger, h.live⟩, ⟨h.named, h.fresh, ?_, h.upright⟩, ⟨?_, ?_, ?_, ?_, ?_, ?_⟩⟩
  · rintro (hshared | harmed | hclaim | harm)
    · exact h.unclaimed (.inl hshared)
    · exact h.unclaimed (.inr harmed)
    · cases hclaim
    · cases harm
  · exact fun harms => Bool.noConfusion harms
  · exact fun id hid => Pc.noConfusion hid
  · exact fun hended => Bool.noConfusion hended
  · exact fun _ _ => rfl
  · exact fun hclaim => CallbackPc.noConfusion hclaim
  · exact fun hpopped => Bool.noConfusion hpopped

theorem Refs.of_same (h : Refs timeout w) (hcount : countOf s.state = countOf w.header.state)
    (hhandles : s.handles = w.header.handles) (htaken : s.taken = w.header.taken)
    (hdropped : s.dropped = w.header.dropped)
    (hsum : s.armed + pc.owns timeout + callback.owns =
      w.header.armed + w.pc.owns timeout + w.callback.owns) :
    Refs timeout ⟨s, pc, callback⟩ := by
  have hbooks := h.count
  have hledger := h.ledger
  refine ⟨?_, ?_, ?_⟩
  · show countOf s.state = s.handles + s.armed + pc.owns timeout + callback.owns
    omega
  · show s.taken = s.dropped + s.armed + pc.owns timeout + callback.owns
    omega
  · show 0 < s.handles
    rw [hhandles]
    exact h.live

theorem Pc.not_arms_of_plain (h : pc.plain = true) : pc.arms = false := by
  cases pc with
  | setAddRef | setClear | setArm => cases h
  | _ => rfl

theorem Pc.not_ended_of_plain (h : pc.plain = true) : pc.ended = false := by
  cases pc with
  | clearId | dropRef | bumpEpoch => cases h
  | done error =>
      cases error with
      | none => cases h
      | some => rfl
  | _ => rfl

theorem Places.of_plain (h : Places build w) (hplain : pc.plain = true)
    (haway : build = .reuseaddr → w.callback = .idle)
    (hpopped : w.callback.popped = true → s.wheel = none ∧ s.timerId ≠ 0) :
    Places build ⟨s, pc, w.callback⟩ := by
  refine ⟨?_, ?_, ?_, fun hbuild hbusy => absurd (haway hbuild) hbusy, h.home, hpopped⟩
  · intro harms
    rw [Pc.not_arms_of_plain hplain] at harms
    cases harms
  · intro id hid
    dsimp only at hid
    rw [hid] at hplain
    cases hplain
  · intro hended
    rw [Pc.not_ended_of_plain hplain] at hended
    cases hended

theorem Pc.plain_ne_setArm (h : pc.plain = true) : pc ≠ .setArm := by
  rintro rfl
  cases h

/-- The reference is not claimed by a step that neither arms a timer nor enters the callback. -/
theorem Timed.stays_unclaimed (h : Timed build w)
    (hwheel : s.wheel.isSome = true → w.header.wheel.isSome = true)
    (hcallback : callback = .claim → w.callback = .claim) (hpc : pc ≠ .setArm) :
    build = .shared ∨ s.wheel.isSome = true ∨ callback = .claim ∨ pc = .setArm →
      w.header.claimed = false := by
  rintro (hshared | harmed | hclaim | harm)
  · exact h.unclaimed (.inl hshared)
  · exact h.unclaimed (.inr (.inl (hwheel harmed)))
  · exact h.unclaimed (.inr (.inr (.inl (hcallback hclaim))))
  · exact absurd harm hpc

theorem Kept.goes (h : Kept build timeout w) (hplain : pc.plain = true)
    (howns : pc.owns timeout = w.pc.owns timeout)
    (haway : build = .reuseaddr → w.callback = .idle) :
    Kept build timeout ⟨w.header, pc, w.callback⟩ := by
  exact ⟨h.refs.of_same rfl rfl rfl rfl (by rw [howns]), ⟨h.timed.named, h.timed.fresh,
    h.timed.stays_unclaimed id id (Pc.plain_ne_setArm hplain), h.timed.upright⟩,
    h.places.of_plain hplain haway h.places.popped⟩

theorem Header.armed_updateTimer (s : Header) (id : Nat) (ms : BitVec 64) :
    (s.updateTimer id ms).armed = s.armed := by
  unfold Header.armed Header.updateTimer
  rw [Option.isSome_map]

theorem updateTimer_named {id : Nat} {ms : BitVec 64}
    (h : ∀ timer, s.wheel = some timer → timer.id = s.timerId ∧ s.timerId ≠ 0) :
    ∀ timer, (s.updateTimer id ms).wheel = some timer → timer.id = s.timerId ∧ s.timerId ≠ 0 := by
  intro timer htimer
  obtain ⟨timer', hwheel, rfl⟩ := Option.map_eq_some_iff.mp htimer
  have hnamed := h timer' hwheel
  split
  · exact hnamed
  · exact hnamed

theorem Timed.unarmed (h : Timed build w) (hid : w.header.timerId = 0) : w.header.wheel = none := by
  cases hwheel : w.header.wheel with
  | none => rfl
  | some timer => exact absurd hid (h.named timer hwheel).2

/-! ## Steps of the coroutine -/

theorem setLoad_kept (h : Kept build timeout w) (hpc : w.pc = .setLoad)
    (haway : build = .reuseaddr → w.callback = .idle) :
    Kept build timeout
      ⟨w.header, if w.header.timerId ≠ 0 then .setUpdate else .setAddRef, w.callback⟩ := by
  split
  · exact h.goes rfl (by rw [hpc]; rfl) haway
  · rename_i hid
    have hnone : w.header.timerId = 0 := not_not.mp hid
    refine ⟨h.refs.of_same rfl rfl rfl rfl (by rw [hpc]; rfl), ⟨h.timed.named, h.timed.fresh,
      h.timed.stays_unclaimed id id Pc.noConfusion, h.timed.upright⟩, ⟨fun _ => hnone, ?_, ?_,
      fun hbuild hbusy => absurd (haway hbuild) hbusy, h.places.home, h.places.popped⟩⟩
    · exact fun id hcancel => Pc.noConfusion hcancel
    · exact fun hended => Bool.noConfusion hended

theorem setUpdate_kept (h : Kept build timeout w) (hpc : w.pc = .setUpdate)
    (haway : build = .reuseaddr → w.callback = .idle) :
    Kept build timeout
      ⟨w.header.updateTimer w.header.timerId (timeoutMs timeout), .connecting, w.callback⟩ := by
  have harmed := Header.armed_updateTimer w.header w.header.timerId (timeoutMs timeout)
  have hmap : (w.header.updateTimer w.header.timerId (timeoutMs timeout)).wheel.isSome =
      w.header.wheel.isSome := Option.isSome_map ..
  refine ⟨h.refs.of_same rfl rfl rfl rfl (by rw [harmed, hpc]; rfl),
    ⟨updateTimer_named h.timed.named, h.timed.fresh,
      h.timed.stays_unclaimed hmap.symm.trans id Pc.noConfusion, h.timed.upright⟩,
    h.places.of_plain rfl haway fun hpopped => ?_⟩
  obtain ⟨hnone, hid⟩ := h.places.popped hpopped
  refine ⟨?_, hid⟩
  unfold Header.updateTimer
  rw [hnone]
  rfl

/-- `set_timeout_ms` takes the reference for the timer it is about to arm. -/
theorem setAddRef_kept (h : Kept build timeout w) (hpc : w.pc = .setAddRef)
    (haway : build = .reuseaddr → w.callback = .idle)
    (hopen : isClosed w.header.state = false)
    (hroom : countOf w.header.state < 2 ^ refcountBits - 1) :
    Kept build timeout
      ⟨{ w.header with
          state := (tryAddRef w.header.state).2,
          taken := w.header.taken + (tryAddRef w.header.state).1.toNat },
        if build = .reuseaddr then .setClear else .setArm, w.callback⟩ := by
  have htook := tryAddRef_of_open hopen hroom
  have hword : countOf (tryAddRef w.header.state).2 = countOf w.header.state + 1 := by
    rw [(tryAddRef_eq_addRef htook).1]
    exact (addRef_of_lt hroom).2
  have hnone : w.header.timerId = 0 := h.places.arms (by rw [hpc]; rfl)
  have hcount := h.refs.count
  have hledger := h.refs.ledger
  rw [hpc] at hcount hledger
  have hgo : ∀ pc : Pc, pc.owns timeout = 1 → pc.arms = true → pc.ended = false →
      (∀ id, pc ≠ .cancel id) → (pc = .setArm → build = .shared) →
      Kept build timeout
        ⟨{ w.header with
            state := (tryAddRef w.header.state).2,
            taken := w.header.taken + (tryAddRef w.header.state).1.toNat }, pc, w.callback⟩ := by
    intro pc howns harms hended hcancel hshared
    refine ⟨⟨?_, ?_, h.refs.live⟩, ⟨h.timed.named, h.timed.fresh, ?_, h.timed.upright⟩,
      ⟨fun _ => hnone, ?_, ?_, fun hbuild hbusy => absurd (haway hbuild) hbusy, h.places.home, h.places.popped⟩⟩
    · show countOf (tryAddRef w.header.state).2 =
        w.header.handles + w.header.armed + pc.owns timeout + w.callback.owns
      simp only [Pc.owns] at hcount
      omega
    · show w.header.taken + (tryAddRef w.header.state).1.toNat =
        w.header.dropped + w.header.armed + pc.owns timeout + w.callback.owns
      simp only [Pc.owns] at hledger
      rw [htook, Bool.toNat_true]
      omega
    · rintro (hbuild | harmed | hclaim | harm)
      · exact h.timed.unclaimed (.inl hbuild)
      · exact h.timed.unclaimed (.inr (.inl harmed))
      · exact h.timed.unclaimed (.inr (.inr (.inl hclaim)))
      · exact h.timed.unclaimed (.inl (hshared harm))
    · exact fun id hid => absurd hid (hcancel id)
    · intro hcontra
      rw [hended] at hcontra
      cases hcontra
  cases build with
  | reuseaddr => exact hgo .setClear rfl rfl rfl (by simp) (by simp)
  | shared => exact hgo .setArm rfl rfl rfl (by simp) (fun _ => rfl)

theorem setClear_kept (h : Kept build timeout w) (hpc : w.pc = .setClear)
    (haway : build = .reuseaddr → w.callback = .idle) :
    Kept build timeout ⟨{ w.header with claimed := false }, .setArm, w.callback⟩ := by
  have hnone : w.header.timerId = 0 := h.places.arms (by rw [hpc]; rfl)
  refine ⟨h.refs.of_same rfl rfl rfl rfl (by rw [hpc]; rfl),
    ⟨h.timed.named, h.timed.fresh, fun _ => rfl, h.timed.upright⟩,
    ⟨fun _ => hnone, fun id hid => Pc.noConfusion hid, fun hended => Bool.noConfusion hended,
      fun hbuild hbusy => absurd (haway hbuild) hbusy, h.places.home, h.places.popped⟩⟩

theorem setArm_kept (h : Kept build timeout w) (hpc : w.pc = .setArm)
    (haway : build = .reuseaddr → w.callback = .idle) :
    Kept build timeout ⟨w.header.arm build (timeoutMs timeout), .connecting, w.callback⟩ := by
  have hid : w.header.timerId = 0 := h.places.arms (by rw [hpc]; rfl)
  have hnone := h.timed.unarmed hid
  have harm : w.header.arm build (timeoutMs timeout) = w.header.addTimer (timeoutMs timeout) := by
    cases build with
    | shared => rfl
    | reuseaddr => exact if_neg (not_not.mpr hid)
  rw [harm]
  have hfree := h.timed.unclaimed (.inr (.inr (.inr hpc)))
  refine ⟨h.refs.of_same rfl rfl rfl rfl ?_, ⟨?_, Nat.succ_pos _, fun _ => hfree, h.timed.upright⟩,
    h.places.of_plain rfl haway fun hpopped => absurd hid (h.places.popped hpopped).2⟩
  · rw [hpc]
    unfold Header.armed
    rw [hnone]
    rfl
  · intro timer htimer
    obtain rfl := Option.some.inj htimer
    exact ⟨rfl, h.timed.fresh.ne'⟩

theorem cancelLoad_kept (h : Kept build timeout w) (hpc : w.pc = .cancelLoad)
    (haway : build = .reuseaddr → w.callback = .idle) :
    Kept build timeout ⟨w.header, .cancel w.header.timerId, w.callback⟩ := by
  refine ⟨h.refs.of_same rfl rfl rfl rfl (by rw [hpc]; rfl), ⟨h.timed.named, h.timed.fresh,
    h.timed.stays_unclaimed id id Pc.noConfusion, h.timed.upright⟩,
    ⟨fun harms => Bool.noConfusion harms, ?_, fun hended => Bool.noConfusion hended,
      fun hbuild hbusy => absurd (haway hbuild) hbusy, h.places.home, h.places.popped⟩⟩
  intro id hid timer htimer
  obtain rfl := Pc.cancel.inj hid
  exact (h.timed.named timer htimer).1

/-- The cancel leaves no timer, and finds one exactly if the timeout is positive. -/
theorem cancel_kept {id : Nat} (h : Kept build timeout w) (hpc : w.pc = .cancel id)
    (hidle : w.callback = .idle) (hmatched : positive timeout = w.header.wheel.isSome) :
    Kept build timeout ⟨(w.header.cancelTimer id).2, .clearId, w.callback⟩ := by
  have hnone : (w.header.cancelTimer id).2 = { w.header with wheel := none } := by
    unfold Header.cancelTimer
    cases hwheel : w.header.wheel with
    | none =>
        rw [if_neg (by simp), ← hwheel]
    | some timer =>
        rw [if_pos]
        simpa using h.places.cancels id hpc timer hwheel
  rw [hnone]
  refine ⟨h.refs.of_same rfl rfl rfl rfl ?_, ⟨by simp, h.timed.fresh, ?_,
    h.timed.upright⟩, ⟨fun harms => Bool.noConfusion harms, fun _ hid => Pc.noConfusion hid,
    fun _ => ⟨rfl, hidle⟩, fun _ hbusy => absurd hidle hbusy, h.places.home, ?_⟩⟩
  · rw [hpc]
    unfold Header.armed Pc.owns
    rw [hmatched]
    exact congrArg (· + w.callback.owns) (Nat.add_comm _ _)
  · exact h.timed.stays_unclaimed (fun harmed => Bool.noConfusion harmed)
      (fun hclaim => hclaim) Pc.noConfusion
  · dsimp only
    rw [hidle]
    exact fun hpopped => Bool.noConfusion hpopped

theorem Kept.ends (h : Kept build timeout w) (hended : w.pc.ended = true)
    (hrefs : Refs timeout ⟨s, pc, w.callback⟩) (hwheel : s.wheel = w.header.wheel)
    (hclaimed : s.claimed = w.header.claimed) (hupright : s.teardownPending = false)
    (hfresh : 0 < s.nextTimerId) (harms : pc.arms = false) (hcancel : ∀ id, pc ≠ .cancel id) :
    Kept build timeout ⟨s, pc, w.callback⟩ := by
  obtain ⟨hnone, hidle⟩ := h.places.ended hended
  rw [hnone] at hwheel
  refine ⟨hrefs, ⟨?_, hfresh, ?_, hupright⟩, ⟨?_, ?_, fun _ => ⟨hwheel, hidle⟩,
    fun _ hbusy => absurd hidle hbusy, h.places.home, ?_⟩⟩
  · intro timer htimer
    rw [hwheel] at htimer
    cases htimer
  · dsimp only
    rw [hclaimed]
    refine h.timed.stays_unclaimed ?_ id ?_
    · rw [hwheel]
      exact fun harmed => Bool.noConfusion harmed
    · rintro rfl
      cases harms
  · intro hcontra
    rw [harms] at hcontra
    cases hcontra
  · exact fun id hid => absurd hid (hcancel id)
  · dsimp only
    rw [hidle]
    exact fun hpopped => Bool.noConfusion hpopped

theorem clearId_kept (h : Kept build timeout w) (hpc : w.pc = .clearId) :
    Kept build timeout
      ⟨{ w.header with timerId := 0 }, if positive timeout then .dropRef else .bumpEpoch,
        w.callback⟩ := by
  refine h.ends (by rw [hpc]; rfl) (h.refs.of_same rfl rfl rfl rfl ?_) rfl rfl h.timed.upright
    h.timed.fresh ?_ ?_
  · rw [hpc]
    unfold Pc.owns
    cases positive timeout <;> rfl
  · split <;> rfl
  · intro id
    split <;> exact Pc.noConfusion

theorem dropRef_kept (h : Kept build timeout w) (hpc : w.pc = .dropRef) :
    Kept build timeout
      ⟨{ w.header with state := decreaseRef w.header.state, dropped := w.header.dropped + 1 },
        .bumpEpoch, w.callback⟩ := by
  have hcount := h.refs.count
  have hledger := h.refs.ledger
  rw [hpc] at hcount hledger
  have hdown : countOf (decreaseRef w.header.state) = countOf w.header.state - 1 :=
    (sub_one_of_pos (by simp only [Pc.owns] at hcount; omega)).2
  refine h.ends (by rw [hpc]; rfl) ⟨?_, ?_, h.refs.live⟩ rfl rfl h.timed.upright h.timed.fresh rfl
    (fun _ => Pc.noConfusion)
  · show countOf (decreaseRef w.header.state) =
      w.header.handles + w.header.armed + 0 + w.callback.owns
    simp only [Pc.owns] at hcount
    omega
  · show w.header.taken = w.header.dropped + 1 + w.header.armed + 0 + w.callback.owns
    simp only [Pc.owns] at hledger
    omega

/-- The epoch is above the count, even where it overflows. -/
theorem countOf_timeoutEpochBump (word : Word) : countOf (timeoutEpochBump word) = countOf word := by
  have hstep : timeoutEpochStep.toNat = 2 ^ refcountBits := by decide
  unfold timeoutEpochBump countOf field
  rw [BitVec.toNat_add, hstep]
  simp only [refcountBits]
  omega

theorem bumpEpoch_kept (h : Kept build timeout w) (hpc : w.pc = .bumpEpoch) :
    Kept build timeout
      ⟨{ w.header with state := timeoutEpochBump w.header.state }, .done none, w.callback⟩ := by
  have hcount := countOf_timeoutEpochBump w.header.state
  have hrefs : Refs timeout
      ⟨{ w.header with state := timeoutEpochBump w.header.state }, .done none, w.callback⟩ := by
    refine h.refs.of_same hcount rfl rfl rfl ?_
    rw [hpc]
    unfold Header.armed
    rfl
  exact h.ends (by rw [hpc]; rfl) hrefs rfl rfl h.timed.upright h.timed.fresh rfl
    (fun _ => Pc.noConfusion)

/-- The reuseaddr build runs the coroutine and the callback on one worker. -/
theorem Connection.runs.away (h : w.runs build) :
    build = .reuseaddr → w.callback = .idle := by
  rintro rfl
  rcases h with hidle | ⟨hshared, -⟩
  · exact hidle
  · cases hshared

theorem connectStep_kept (h : Kept build timeout w) (hruns : w.runs build)
    (hmatched : Matched timeout w .connect) (hstep : ConnectStep build timeout w.header w.pc s pc) :
    Kept build timeout ⟨s, pc, w.callback⟩ := by
  have haway := hruns.away
  have hcond := hmatched rfl
  have hgo : ∀ pc' : Pc, pc'.plain = true → pc'.owns timeout = w.pc.owns timeout →
      Kept build timeout ⟨w.header, pc', w.callback⟩ := fun _ hplain howns => h.goes hplain howns haway
  cases hpc : w.pc with
  | resolving =>
      rw [hpc] at hstep hgo
      cases hstep with
      | unresolved | noSocket => exact hgo _ rfl rfl
      | opened =>
          cases positive timeout with
          | true => exact hgo .setLoad rfl rfl
          | false => exact hgo .connecting rfl rfl
  | setLoad =>
      rw [hpc] at hstep
      cases hstep
      exact setLoad_kept h hpc haway
  | setUpdate =>
      rw [hpc] at hstep
      cases hstep
      exact setUpdate_kept h hpc haway
  | setAddRef =>
      rw [hpc] at hstep hcond
      cases hstep
      exact setAddRef_kept h hpc haway hcond.1 hcond.2
  | setClear =>
      rw [hpc] at hstep
      cases hstep
      exact setClear_kept h hpc haway
  | setArm =>
      rw [hpc] at hstep
      cases hstep
      exact setArm_kept h hpc haway
  | connecting =>
      rw [hpc] at hstep hgo
      cases hstep <;> exact hgo _ rfl rfl
  | parked =>
      rw [hpc] at hstep hgo
      cases hstep <;> exact hgo _ rfl rfl
  | checkTimeout =>
      rw [hpc] at hstep hgo
      cases hstep
      split <;> exact hgo _ rfl rfl
  | checkError =>
      rw [hpc] at hstep hgo
      cases hstep <;> exact hgo _ rfl rfl
  | cancelLoad =>
      rw [hpc] at hstep
      cases hstep
      exact cancelLoad_kept h hpc haway
  | cancel id =>
      rw [hpc] at hstep hcond
      cases hstep
      have hidle : w.callback = .idle := hruns.resolve_right fun hfree => hfree.2 id hpc
      exact cancel_kept h hpc hidle hcond
  | clearId =>
      rw [hpc] at hstep
      cases hstep
      exact clearId_kept h hpc
  | dropRef =>
      rw [hpc] at hstep
      cases hstep
      exact dropRef_kept h hpc
  | bumpEpoch =>
      rw [hpc] at hstep
      cases hstep
      exact bumpEpoch_kept h hpc
  | done error =>
      rw [hpc] at hstep
      cases hstep

/-! ## Steps of the callback -/

theorem Places.of_callback (h : Places build w) (hbusy : w.callback ≠ .idle)
    (hid : s.timerId = w.header.timerId ∨ s.timerId = 0) (hwheel : s.wheel = w.header.wheel)
    (hclaim : callback ≠ .claim) (hpopped : callback.popped = true → s.wheel = none ∧ s.timerId ≠ 0) :
    Places build ⟨s, w.pc, callback⟩ := by
  refine ⟨?_, ?_, fun hended => absurd (h.ended hended).2 hbusy, fun hbuild _ => h.away hbuild hbusy,
    fun hcontra => absurd hcontra hclaim, hpopped⟩
  · intro harms
    rcases hid with hsame | hzero
    · exact hsame.trans (h.arms harms)
    · exact hzero
  · intro id hcancel timer htimer
    rw [hwheel] at htimer
    exact h.cancels id hcancel timer htimer

theorem Timed.of_callback (h : Timed build w)
    (hid : s.wheel.isSome = true → s.timerId = w.header.timerId)
    (hwheel : s.wheel = w.header.wheel) (hclaimed : s.claimed = w.header.claimed)
    (hnext : s.nextTimerId = w.header.nextTimerId) (hupright : s.teardownPending = false)
    (hclaim : callback ≠ .claim) : Timed build ⟨s, w.pc, callback⟩ := by
  refine ⟨?_, hnext ▸ h.fresh, ?_, hupright⟩
  · intro timer htimer
    dsimp only at htimer ⊢
    rw [hid (by rw [htimer]; rfl)]
    rw [hwheel] at htimer
    exact h.named timer htimer
  · dsimp only
    rw [hclaimed, hwheel]
    rintro (hshared | harmed | hcontra | harm)
    · exact h.unclaimed (.inl hshared)
    · exact h.unclaimed (.inr (.inl harmed))
    · exact absurd hcontra hclaim
    · exact h.unclaimed (.inr (.inr (.inr harm)))

theorem Kept.calls (h : Kept build timeout w) (hbusy : w.callback ≠ .idle)
    (hcount : countOf s.state = countOf w.header.state) (hhandles : s.handles = w.header.handles)
    (htaken : s.taken = w.header.taken) (hdropped : s.dropped = w.header.dropped)
    (howns : callback.owns = w.callback.owns) (hid : s.timerId = w.header.timerId)
    (hwheel : s.wheel = w.header.wheel) (hclaimed : s.claimed = w.header.claimed)
    (hnext : s.nextTimerId = w.header.nextTimerId)
    (hupright : s.teardownPending = w.header.teardownPending) (hpopped : callback.popped = false) :
    Kept build timeout ⟨s, w.pc, callback⟩ := by
  have hclaim : callback ≠ .claim := by
    rintro rfl
    cases hpopped
  refine ⟨h.refs.of_same hcount hhandles htaken hdropped ?_,
    h.timed.of_callback (fun _ => hid) hwheel hclaimed hnext (hupright.trans h.timed.upright) hclaim,
    h.places.of_callback hbusy (.inl hid) hwheel hclaim fun hcontra => ?_⟩
  · unfold Header.armed
    rw [howns, hwheel]
  · rw [hpopped] at hcontra
    cases hcontra

theorem claim_kept (h : Kept build timeout w) (hcallback : w.callback = .claim) :
    Kept build timeout
      ⟨{ w.header with claimed := true }, w.pc,
        .reset (!w.header.claimed && !w.header.teardownPending)⟩ := by
  have hbusy : w.callback ≠ .idle := by
    rw [hcallback]
    exact CallbackPc.noConfusion
  have hfree := h.timed.unclaimed (.inr (.inr (.inl hcallback)))
  have hpopped := h.places.popped (by rw [hcallback]; rfl)
  obtain rfl := h.places.home hcallback
  rw [hfree, h.timed.upright]
  refine ⟨h.refs.of_same rfl rfl rfl rfl (by rw [hcallback]; rfl),
    ⟨h.timed.named, h.timed.fresh, ?_, h.timed.upright⟩,
    h.places.of_callback hbusy (.inl rfl) rfl CallbackPc.noConfusion fun _ => hpopped⟩
  rintro (hshared | harmed | hclaim | harm)
  · cases hshared
  · dsimp only at harmed
    rw [hpopped.1] at harmed
    cases harmed
  · cases hclaim
  · have hsuspended := h.places.away rfl hbusy
    dsimp only at harm
    rw [harm] at hsuspended
    cases hsuspended

theorem reset_kept {adopted : Bool} (h : Kept build timeout w)
    (hcallback : w.callback = .reset adopted) (howns : callback.owns = adopted.toNat)
    (hplain : callback.popped = false) :
    Kept build timeout ⟨{ w.header with timerId := 0 }, w.pc, callback⟩ := by
  have hbusy : w.callback ≠ .idle := by
    rw [hcallback]
    exact CallbackPc.noConfusion
  have hclaim : callback ≠ .claim := by
    rintro rfl
    cases hplain
  have hnone := (h.places.popped (by rw [hcallback]; rfl)).1
  refine ⟨h.refs.of_same rfl rfl rfl rfl (by rw [howns, hcallback]; rfl),
    h.timed.of_callback ?_ rfl rfl rfl h.timed.upright hclaim,
    h.places.of_callback hbusy (.inr rfl) rfl hclaim fun hcontra => ?_⟩
  · intro harmed
    dsimp only at harmed
    rw [hnone] at harmed
    cases harmed
  · rw [hplain] at hcontra
    cases hcontra

/-- The `Socket` of the callback goes, and its reference with it; there is still the handle
of the coroutine. -/
theorem release_kept (h : Kept build timeout w) (hcallback : w.callback = .release) :
    Kept build timeout
      ⟨{ w.header.release with dropped := w.header.dropped + 1 }, w.pc, .idle⟩ := by
  have hbusy : w.callback ≠ .idle := by
    rw [hcallback]
    exact CallbackPc.noConfusion
  have hcount := h.refs.count
  have hledger := h.refs.ledger
  rw [hcallback] at hcount hledger
  simp only [CallbackPc.owns] at hcount hledger
  have hdown : countOf (StateWord.release w.header.state).2 = countOf w.header.state - 1 :=
    (sub_one_of_pos (by omega)).2
  refine ⟨⟨?_, ?_, h.refs.live⟩,
    h.timed.of_callback (fun _ => rfl) rfl rfl rfl h.timed.upright CallbackPc.noConfusion,
    h.places.of_callback hbusy (.inl rfl) rfl CallbackPc.noConfusion fun hcontra => Bool.noConfusion hcontra⟩
  · show countOf (StateWord.release w.header.state).2 =
      w.header.handles + w.header.armed + w.pc.owns timeout + 0
    omega
  · show w.header.taken = w.header.dropped + 1 + w.header.armed + w.pc.owns timeout + 0
    omega

theorem countOf_tryMarkBusy (word : Word) : countOf (tryMarkBusy word).2 = countOf word := by
  have hflag : HeaderOp.tryMarkBusy.flagBit = some 62 := rfl
  exact (fields_of_flagBit (b := .shared) hflag word).1

theorem countOf_markDisconnected (word : Word) : countOf (markDisconnected word) = countOf word := by
  have hflag : HeaderOp.markDisconnected.flagBit = some 59 := rfl
  exact (fields_of_flagBit (b := .shared) hflag word).1

theorem countOf_clearBusy (word : Word) : countOf (clearBusy word) = countOf word := by
  have hflag : HeaderOp.clearBusy.flagBit = some 62 := rfl
  exact (fields_of_flagBit (b := .shared) hflag word).1

theorem callback_kept (h : Kept build timeout w) (hbusy : w.callback ≠ .idle) :
    Kept build timeout
      ⟨(callbackExec build w.header w.callback).1, w.pc,
        (callbackExec build w.header w.callback).2⟩ := by
  have hgo : ∀ (word : Word) (callback : CallbackPc), countOf word = countOf w.header.state →
      callback.owns = w.callback.owns → callback.popped = false →
      Kept build timeout ⟨{ w.header with state := word }, w.pc, callback⟩ :=
    fun _ _ hcount howns hpopped =>
      h.calls hbusy hcount rfl rfl rfl howns rfl rfl rfl rfl rfl hpopped
  cases hcallback : w.callback with
  | idle => exact absurd hcallback hbusy
  | claim => exact claim_kept h hcallback
  | reset adopted =>
      cases adopted with
      | false => exact reset_kept h hcallback rfl rfl
      | true =>
          cases build with
          | shared => exact reset_kept h hcallback rfl rfl
          | reuseaddr => exact reset_kept h hcallback rfl rfl
  | loadEpoch => exact hgo w.header.state _ rfl (by rw [hcallback]; rfl) rfl
  | markBusy expected =>
      have hcount := countOf_tryMarkBusy w.header.state
      rw [callbackExec.eq_def]
      dsimp only
      refine hgo _ _ hcount ?_ ?_
      · rw [hcallback]
        split <;> rfl
      · split <;> rfl
  | checkEpoch expected =>
      rw [callbackExec.eq_def]
      dsimp only
      refine hgo w.header.state _ rfl ?_ ?_
      · rw [hcallback]
        split <;> rfl
      · split <;> rfl
  | markDisconnected =>
      have hcount := countOf_markDisconnected w.header.state
      exact hgo _ _ hcount (by rw [hcallback]; rfl) rfl
  | clearBusy disconnected =>
      have hcount := countOf_clearBusy w.header.state
      rw [callbackExec.eq_def]
      dsimp only
      refine hgo _ _ hcount ?_ ?_
      · rw [hcallback]
        split <;> rfl
      · split <;> rfl
  | markTimeout =>
      exact h.calls hbusy rfl rfl rfl rfl (by rw [hcallback]; rfl) rfl rfl rfl rfl rfl rfl
  | release => exact release_kept h hcallback

theorem fire_kept {timer : ArmedTimer} (h : Kept build timeout w)
    (harmed : w.header.wheel = some timer) (hidle : w.callback = .idle)
    (hsuspended : build = .reuseaddr → w.pc.suspended = true) :
    Kept build timeout
      ⟨{ w.header with wheel := none }, w.pc,
        if build = .reuseaddr then .claim else .reset true⟩ := by
  have hid := (h.timed.named timer harmed).2
  have hfree := h.timed.unclaimed (.inr (.inl (by rw [harmed]; rfl)))
  have hnow : (if build = .reuseaddr then CallbackPc.claim else .reset true).owns = 1 := by
    split <;> rfl
  refine ⟨h.refs.of_same rfl rfl rfl rfl ?_, ⟨by simp, h.timed.fresh, fun _ => hfree,
    h.timed.upright⟩, ⟨h.places.arms, by simp, fun hended => ?_, fun hbuild _ => hsuspended hbuild,
    ?_, fun _ => ⟨rfl, hid⟩⟩⟩
  · rw [hnow, hidle]
    unfold Header.armed
    rw [harmed]
    exact Nat.add_right_comm 0 _ 1
  · rw [(h.places.ended hended).1] at harmed
    cases harmed
  · intro hclaim
    by_contra hbuild
    dsimp only at hclaim
    rw [if_neg hbuild] at hclaim
    cases hclaim

/-! ## Steps of the others, and runs -/

theorem Kept.others (h : Kept build timeout w) {word : Word} {handles destroys : Nat}
    (hcount : countOf word + w.header.handles = countOf w.header.state + handles)
    (hlive : 0 < handles) :
    Kept build timeout
      { w with header := { w.header with state := word, handles, destroys } } := by
  have hbooks := h.refs.count
  refine ⟨⟨?_, h.refs.ledger, hlive⟩,
    ⟨h.timed.named, h.timed.fresh, h.timed.unclaimed, h.timed.upright⟩,
    ⟨h.places.arms, h.places.cancels, h.places.ended, h.places.away, h.places.home,
      h.places.popped⟩⟩
  show countOf word = handles + w.header.armed + w.pc.owns timeout + w.callback.owns
  omega

theorem step_kept {a : Actor} (h : Kept build timeout w) (hmatched : Matched timeout w a)
    (hstep : Step build timeout w a w') : Kept build timeout w' := by
  cases hstep with
  | connect hstep runs => exact connectStep_kept h runs hmatched hstep
  | fire armed idle suspended => exact fire_kept h armed idle suspended
  | callback busy => exact callback_kept h busy
  | copy room =>
      have hup : countOf (addRef w.header.state) = countOf w.header.state + 1 :=
        (addRef_of_lt room).2
      exact h.others (by omega) (Nat.succ_pos _)
  | drop more =>
      have hbooks := h.refs.count
      have hdown : countOf (StateWord.release w.header.state).2 = countOf w.header.state - 1 :=
        (sub_one_of_pos (by omega)).2
      have hcount : countOf (StateWord.release w.header.state).2 + w.header.handles =
          countOf w.header.state + (w.header.handles - 1) := by omega
      have hlive : 0 < w.header.handles - 1 := by omega
      exact h.others hcount hlive
  | flags word same => exact h.others (by omega) h.refs.live

theorem kept_of_runs (h : Runs build timeout (Matched timeout) w) : Kept build timeout w :=
  h.holds (fun ⟨_, prior, hw⟩ => hw ▸ kept_start prior) fun _ ih hstep meets =>
    step_kept ih meets hstep

/-- In every run whose steps are matched `async_connect` has kept the count when it returns
without error. -/
theorem balanced_of_matchedRuns (h : Runs build timeout (Matched timeout) w)
    (hdone : w.pc = .done none) : Balanced w.header := by
  have hkept := kept_of_runs h
  have hidle := (hkept.places.ended (by rw [hdone]; rfl)).2
  have hcount := hkept.refs.count
  have hledger := hkept.refs.ledger
  rw [hdone, hidle] at hcount hledger
  exact ⟨hcount, hledger⟩

/-- A header with one handle, before any `set_timeout_ms`. -/
def unarmed : Header where
  state := initialState
  timerId := 0
  claimed := false
  teardownPending := false
  timedOut := false
  wheel := none
  nextTimerId := 1
  handles := 1
  taken := 0
  dropped := 0
  destroys := 0

def armedBefore : Header :=
  { unarmed with
    state := addRef initialState,
    timerId := 1,
    wheel := some ⟨1, 5000⟩,
    nextTimerId := 2,
    taken := 1 }

theorem prior_unarmed (build : Build) : Prior build unarmed :=
  ⟨by decide, rfl, Nat.one_pos, by simp [unarmed], Nat.one_pos, fun _ => rfl, rfl⟩

theorem prior_armedBefore (build : Build) : Prior build armedBefore :=
  ⟨by decide, rfl, Nat.one_pos, by simp [armedBefore], Nat.succ_pos _, fun _ => rfl, rfl⟩

/-- A connect in half a second. -/
theorem connected_balanced : ∃ w : Connection,
    Runs .shared 500 (Matched 500) w ∧ w.pc = .done none ∧ w.header.taken = 1 ∧
      Balanced w.header := by
  have hstart : Runs .shared 500 (Matched 500) ⟨unarmed, .resolving, .idle⟩ :=
    .start ⟨_, prior_unarmed _, rfl⟩
  have hopened := hstart.step (.connect .opened (.inl rfl)) (fun _ => trivial)
  have hload := hopened.step (.connect .setLoad (.inl rfl)) (fun _ => trivial)
  have htake := hload.step (.connect .setAddRef (.inl rfl)) (fun _ => ⟨by decide, by decide⟩)
  have harm := htake.step (.connect .setArm (.inl rfl)) (fun _ => trivial)
  have hpark := harm.step (.connect .parks (.inl rfl)) (fun _ => trivial)
  have hresume := hpark.step (.connect .resumed (.inl rfl)) (fun _ => trivial)
  have hcheck := hresume.step (.connect .checkTimeout (.inl rfl)) (fun _ => trivial)
  have hsound := hcheck.step (.connect .connected (.inl rfl)) (fun _ => trivial)
  have hread := hsound.step (.connect .cancelLoad (.inl rfl)) (fun _ => trivial)
  have hcancel := hread.step (.connect (.cancel _) (.inl rfl)) (fun _ => rfl)
  have hclear := hcancel.step (.connect .clearId (.inl rfl)) (fun _ => trivial)
  have hdrop := hclear.step (.connect .dropRef (.inl rfl)) (fun _ => trivial)
  have hbump := hdrop.step (.connect .bumpEpoch (.inl rfl)) (fun _ => trivial)
  exact ⟨_, hbump, rfl, rfl, balanced_of_matchedRuns hbump rfl⟩

/-- Without a timeout of its own a connect cancels the timer armed before and leaves the
reference behind; with one it drops the reference even where the callback, on another
worker, has dropped it. -/
theorem connected_not_balanced :
    (∃ w : Connection, Runs .shared 0 (fun _ _ => True) w ∧ w.pc = .done none ∧
      w.header.handles = 1 ∧ w.header.wheel = none ∧ countOf w.header.state = 2 ∧
      ¬Balanced w.header) ∧
    ∃ w : Connection, Runs .shared 500 (fun _ _ => True) w ∧ w.pc = .done none ∧
      w.header.handles = 1 ∧ w.header.wheel = none ∧ countOf w.header.state = 0 ∧
      ¬Balanced w.header := by
  constructor
  · have hstart : Runs .shared 0 (fun _ _ => True) ⟨armedBefore, .resolving, .idle⟩ :=
      .start ⟨_, prior_armedBefore _, rfl⟩
    have hopened := hstart.step (.connect .opened (.inl rfl))
    have hpark := hopened.step (.connect .parks (.inl rfl))
    have hresume := hpark.step (.connect .resumed (.inl rfl))
    have hcheck := hresume.step (.connect .checkTimeout (.inl rfl))
    have hsound := hcheck.step (.connect .connected (.inl rfl))
    have hread := hsound.step (.connect .cancelLoad (.inl rfl))
    have hcancel := hread.step (.connect (.cancel _) (.inl rfl))
    have hclear := hcancel.step (.connect .clearId (.inl rfl))
    have hbump := hclear.step (.connect .bumpEpoch (.inl rfl))
    exact ⟨_, hbump, rfl, rfl, rfl, by decide, fun h => absurd h.count (by decide)⟩
  · have hstart : Runs .shared 500 (fun _ _ => True) ⟨unarmed, .resolving, .idle⟩ :=
      .start ⟨_, prior_unarmed _, rfl⟩
    have hopened := hstart.step (.connect .opened (.inl rfl))
    have hload := hopened.step (.connect .setLoad (.inl rfl))
    have htake := hload.step (.connect .setAddRef (.inl rfl))
    have harm := htake.step (.connect .setArm (.inl rfl))
    have hpark := harm.step (.connect .parks (.inl rfl))
    have hresume := hpark.step (.connect .resumed (.inl rfl))
    -- the poller has woken the coroutine, which sees no timeout yet
    have hcheck := hresume.step (.connect .checkTimeout (.inl rfl))
    have hfire := hcheck.step (.fire rfl rfl (by simp))
    have hreset := hfire.step (.callback (by simp))
    have hepoch := hreset.step (.callback (by simp [callbackExec]))
    have hbusy := hepoch.step (.callback (by simp [callbackExec]))
    have hsame := hbusy.step (.callback (by decide))
    have hmark := hsame.step (.callback (by decide))
    have hclearBusy := hmark.step (.callback (by decide))
    have htimeout := hclearBusy.step (.callback (by decide))
    have hrelease := htimeout.step (.callback (by decide))
    have hsound := hrelease.step (.connect .connected (.inl rfl))
    have hread := hsound.step (.connect .cancelLoad (.inl rfl))
    have hcancel := hread.step (.connect (.cancel _) (.inl rfl))
    have hclear := hcancel.step (.connect .clearId (.inl rfl))
    have hdrop := hclear.step (.connect .dropRef (.inl rfl))
    have hbump := hdrop.step (.connect .bumpEpoch (.inl rfl))
    exact ⟨_, hbump, rfl, rfl, rfl, by decide, fun h => absurd h.count (by decide)⟩

end Kept

end Uvent.Net.Connecting
