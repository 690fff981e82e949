import Uvent.Lib.Tally
import Uvent.Net.OwnerForwarding

/-!
# The references of a socket header

A reference is a live handle's, or the timer's.  The reference of the timer is
with the worker that has taken it in `set_timeout_ms` until it clears
`TIMER_CLAIMED`; then it is nobody's, as long as the timer is armed or something
on the way still arms it or claims it; whoever claims it has it until it is
dropped.

Two steps of the source break this: `set_timeout_ms` clears `TIMER_CLAIMED` over
a reference that nobody has claimed, and the owner cancels, for a forwarded
`Shutdown`, a timer whose reference nobody will claim.
-/

namespace Uvent.Net.Forwarding

open Uvent.Lib Uvent.Net.StateWord

namespace Pc

def ownsRef : Pc → Bool
  | .setClear _ _ took => took
  | .shutRelease _ | .callbackRelease => true
  | .callbackReset adopted => adopted
  | _ => false

/-- The worker is about to arm the timer, to forward a `Timeout` or to claim the
reference. -/
def awaits : Pc → Bool
  | .setArm _ _ | .shutClaim _ | .callbackClaim | .opArm _ => true
  | .forwardCount _ op hadTimer | .forwardPush _ op hadTimer => op.isTimeout || hadTimer
  | _ => false

def ownerOnly : Pc → Bool
  | .setArm _ _ | .opArm _ | .opCancel | .opDone | .opFree => true
  | .tearCancel _ | .tearClose _ | .tearFlag _ | .tearCheck _ => true
  | .callbackClaim | .callbackReset _ | .callbackRelease => true
  | _ => false

def tears : Pc → Bool
  | .destroyMark | .destroyCount | .destroyPush => true
  | .tearCancel _ | .tearClose _ | .tearFlag _ | .tearCheck _ => true
  | _ => false

/-- The timer was popped and `timer_id` is not reset yet. -/
def inCallback : Pc → Bool
  | .callbackClaim | .callbackReset _ => true
  | _ => false

def forwardsDestroy : Pc → Bool
  | .forwardCount _ op _ | .forwardPush _ op _ => decide (op = .destroy)
  | _ => false

end Pc

/-- A `Timeout` is queued, or a worker is about to arm the timer, to forward a
`Timeout` or to claim the reference. -/
def Awaited (w : Workers) : Prop :=
  w.shared.ops.any (·.isTimeout) = true ∨ ∃ t, (w.own t).awaits = true

def Careful (w : Workers) (t : Nat) : Prop :=
  match w.own t with
  | .copy _ | .setAddRef _ _ => countOf w.shared.state < 2 ^ refcountBits - 1
  | .setClear _ _ _ => w.shared.claimed = true ∨ (w.shared.wheel = none ∧ ¬Awaited w)
  | .opCancel => w.shared.timerId = 0 ∨ w.shared.claimed = true ∨ Awaited w
  | _ => True

/-! ## The books -/

/-- There is a reference of the timer that is nobody's, or there is none and the
header shows it. -/
structure Ownerless (live : Bool) (w : Workers) : Prop where
  alive : live = true → w.shared.claimed = false ∧ (w.shared.wheel.isSome = true ∨ Awaited w)
  spent : live = false → w.shared.claimed = true ∨ (w.shared.timerId = 0 ∧
    w.shared.wheel = none ∧ ¬Awaited w)

/-- `n` workers have a reference of the timer, and `live` says that there is one
that is nobody's. -/
structure Books (n : Nat) (live : Bool) (w : Workers) : Prop where
  tally : Tallied Pc.ownsRef w.own n
  count : countOf w.shared.state = w.shared.handles.card + n + live.toNat
  ledger : w.shared.taken = w.shared.dropped + n + live.toNat
  destroys : w.shared.destroys = if countOf w.shared.state = 0 then 1 else 0
  timer : Ownerless live w

section Books

variable {n : Nat} {live : Bool} {w : Workers} {t : Nat} {s : Header} {pc : Pc}

@[simp] theorem move_shared (r : Header × Pc) : (w.move t r).shared = r.1 := rfl

@[simp] theorem move_own_self (r : Header × Pc) : (w.move t r).own t = r.2 :=
  Function.update_self ..

theorem move_own_of_ne {t' : Nat} (h : t' ≠ t) (r : Header × Pc) : (w.move t r).own t' = w.own t' :=
  Function.update_of_ne h ..

/-- What keeps the reference of the timer after a step of `t`. -/
theorem awaited_move (s : Header) (pc : Pc) : Awaited (w.move t (s, pc)) ↔
    s.ops.any (·.isTimeout) = true ∨ pc.awaits = true ∨ ∃ t', t' ≠ t ∧ (w.own t').awaits = true := by
  unfold Awaited
  rw [move_shared]
  refine or_congr Iff.rfl ⟨?_, ?_⟩
  · rintro ⟨t', ht'⟩
    by_cases htt : t' = t
    · subst htt
      rw [move_own_self] at ht'
      exact .inl ht'
    · rw [move_own_of_ne htt] at ht'
      exact .inr ⟨t', htt, ht'⟩
  · rintro (hpc | ⟨t', htt, ht'⟩)
    · exact ⟨t, by rw [move_own_self]; exact hpc⟩
    · exact ⟨t', by rw [move_own_of_ne htt]; exact ht'⟩

theorem awaited_iff (w : Workers) (t : Nat) : Awaited w ↔
    w.shared.ops.any (·.isTimeout) = true ∨ (w.own t).awaits = true ∨
      ∃ t', t' ≠ t ∧ (w.own t').awaits = true := by
  have hself : w.move t (w.shared, w.own t) = w := by
    unfold Workers.move
    rw [Function.update_eq_self]
  rw [← awaited_move, hself]

structure SameTimer (s s' : Header) : Prop where
  id : s'.timerId = s.timerId
  wheel : s'.wheel.map (·.id) = s.wheel.map (·.id)
  next : s'.nextTimerId = s.nextTimerId

theorem SameTimer.refl (s : Header) : SameTimer s s := ⟨rfl, rfl, rfl⟩

theorem SameTimer.isSome {s s' : Header} (h : SameTimer s s') :
    s'.wheel.isSome = s.wheel.isSome := by
  rw [← Option.isSome_map (f := ArmedTimer.id), h.wheel, Option.isSome_map]

theorem SameTimer.none_iff {s s' : Header} (h : SameTimer s s') :
    s'.wheel = none ↔ s.wheel = none := by
  rw [← Option.not_isSome_iff_eq_none, ← Option.not_isSome_iff_eq_none, h.isSome]

theorem Ownerless.keep (h : Ownerless live w) (htimer : SameTimer w.shared s)
    (hclaimed : s.claimed = w.shared.claimed)
    (hops : s.ops.any (·.isTimeout) = w.shared.ops.any (·.isTimeout))
    (hawaits : pc.awaits = (w.own t).awaits) : Ownerless live (w.move t (s, pc)) := by
  have hiff : Awaited (w.move t (s, pc)) ↔ Awaited w := by
    rw [awaited_move, awaited_iff w t, hawaits, hops]
  constructor
  · intro hlive
    rw [move_shared, hclaimed, htimer.isSome, hiff]
    exact h.alive hlive
  · intro hlive
    rw [move_shared, hclaimed, htimer.id, htimer.none_iff, hiff]
    exact h.spent hlive

/-- Whatever kept the reference of the timer is there, and nothing new asks for
one that is not there. -/
theorem Ownerless.pass (h : Ownerless live w) (hclaimed : s.claimed = w.shared.claimed)
    (hkeep : w.shared.claimed = false → (w.shared.wheel.isSome = true ∨ Awaited w) →
      s.wheel.isSome = true ∨ Awaited (w.move t (s, pc)))
    (hnew : w.shared.claimed = false → w.shared.timerId = 0 → w.shared.wheel = none →
      ¬Awaited w → s.timerId = 0 ∧ s.wheel = none ∧ ¬Awaited (w.move t (s, pc))) :
    Ownerless live (w.move t (s, pc)) := by
  constructor
  · intro hlive
    obtain ⟨hfree, hthere⟩ := h.alive hlive
    exact ⟨hclaimed.trans hfree, hkeep hfree hthere⟩
  · intro hlive
    rw [move_shared]
    rcases h.spent hlive with hclaim | ⟨hid, hwheel, hidle⟩
    · exact .inl (hclaimed.trans hclaim)
    · cases hc : w.shared.claimed with
      | true => exact .inl (hclaimed.trans hc)
      | false => exact .inr (hnew hc hid hwheel hidle)

structure SameRefs (s s' : Header) : Prop where
  count : countOf s'.state = countOf s.state
  handles : s'.handles = s.handles
  taken : s'.taken = s.taken
  dropped : s'.dropped = s.dropped
  destroys : s'.destroys = s.destroys

theorem Books.same (h : Books n live w) (hrefs : SameRefs w.shared s)
    (howns : pc.ownsRef = (w.own t).ownsRef) (htimer : Ownerless live (w.move t (s, pc))) :
    Books n live (w.move t (s, pc)) := by
  refine ⟨h.tally.same howns, ?_, ?_, ?_, htimer⟩
  · rw [move_shared, hrefs.count, hrefs.handles]
    exact h.count
  · rw [move_shared, hrefs.taken, hrefs.dropped]
    exact h.ledger
  · rw [move_shared, hrefs.count, hrefs.destroys]
    exact h.destroys

end Books

/-! ## The timer, the workers and the end -/

/-- `timer_id` names the timer in the wheel, but for the time of the callback. -/
structure Linked (s : Header) (ownerPc : Pc) : Prop where
  named : ∀ timer, s.wheel = some timer → timer.id = s.timerId ∧ s.timerId ≠ 0
  armed : s.timerId ≠ 0 → s.wheel.isSome = true ∨ ownerPc.inCallback = true
  popped : ownerPc.inCallback = true → s.wheel = none
  fresh : 0 < s.nextTimerId

structure Fits (owner t : Nat) (s : Header) (pc : Pc) : Prop where
  home : pc.ownerOnly = true → t = owner
  live : ∀ h, pc.handle = some h → h ∈ s.handles
  took : ∀ h timeoutMs, pc ≠ .setClear h timeoutMs false
  plain : pc.forwardsDestroy = false
  gone : pc.tears = true → countOf s.state = 0

/-- `destroy` has not begun while there are references. -/
structure Upright (s : Header) : Prop where
  pending : s.teardownPending = true → countOf s.state = 0
  destroyed : s.destroyed = true → countOf s.state = 0
  closed : isClosed s.state = true → countOf s.state = 0
  queued : .destroy ∈ s.ops → countOf s.state = 0
  names : ∀ h ∈ s.handles, h < s.nextHandle

structure Inv (owner n : Nat) (live : Bool) (w : Workers) : Prop where
  books : Books n live w
  linked : Linked w.shared (w.own owner)
  fits : ∀ t, Fits owner t w.shared (w.own t)
  upright : Upright w.shared

section Inv

variable {owner n n' : Nat} {live live' : Bool} {w : Workers} {t : Nat} {s : Header} {pc : Pc}

theorem Fits.of_shared {t : Nat} {s s' : Header} {pc : Pc} (h : Fits owner t s pc)
    (hlive : ∀ h, pc.handle = some h → h ∈ s'.handles)
    (hzero : countOf s.state = 0 → countOf s'.state = 0) : Fits owner t s' pc :=
  ⟨h.home, hlive, h.took, h.plain, fun htears => hzero (h.gone htears)⟩

/-- A step of `t` keeps the invariant when it keeps its parts. -/
theorem Inv.of_move (h : Inv owner n live w) (hbooks : Books n' live' (w.move t (s, pc)))
    (hlinked : Linked s ((w.move t (s, pc)).own owner)) (hfits : Fits owner t s pc)
    (hlive : ∀ t' h, t' ≠ t → (w.own t').handle = some h → h ∈ s.handles)
    (hzero : countOf w.shared.state = 0 → countOf s.state = 0) (hupright : Upright s) :
    Inv owner n' live' (w.move t (s, pc)) := by
  refine ⟨hbooks, hlinked, fun t' => ?_, hupright⟩
  by_cases htt : t' = t
  · subst htt
    rw [move_own_self]
    exact hfits
  · rw [move_own_of_ne htt]
    exact (h.fits t').of_shared (fun x hx => hlive t' x htt hx) hzero

theorem Linked.of_same {s s' : Header} {pc pc' : Pc} (h : Linked s pc) (hsame : SameTimer s s')
    (hpc : pc'.inCallback = pc.inCallback) : Linked s' pc' := by
  refine ⟨?_, ?_, ?_, by rw [hsame.next]; exact h.fresh⟩
  · intro timer htimer
    have hmap : s.wheel.map (·.id) = some timer.id := by
      rw [← hsame.wheel, htimer]
      rfl
    obtain ⟨timer', htimer', hid⟩ := Option.map_eq_some_iff.mp hmap
    rw [hsame.id, ← hid]
    exact h.named timer' htimer'
  · rw [hsame.id, hsame.isSome, hpc]
    exact h.armed
  · rw [hpc, hsame.none_iff]
    exact h.popped

/-- The point of the owner, as far as the callback is concerned, after a step of
`t`. -/
theorem inCallback_move (hpc : pc.inCallback = (w.own t).inCallback) :
    ((w.move t (s, pc)).own owner).inCallback = (w.own owner).inCallback := by
  by_cases htt : owner = t
  · subst htt
    rw [move_own_self]
    exact hpc
  · rw [move_own_of_ne htt]

/-- The owner is not in the callback when another worker, or its own call, moves
the timer. -/
theorem Inv.not_inCallback (h : Inv owner n live w) (htimer : w.shared.timerId ≠ 0)
    (hcall : (w.own owner).inCallback = false) : w.shared.wheel.isSome = true := by
  rcases h.linked.armed htimer with harmed | hback
  · exact harmed
  · rw [hcall] at hback
    simp at hback

/-- A step that neither moves a reference nor the timer nor what keeps its
reference. -/
theorem Inv.still (h : Inv owner n live w) (hrefs : SameRefs w.shared s)
    (htimer : SameTimer w.shared s) (hclaimed : s.claimed = w.shared.claimed)
    (howns : pc.ownsRef = (w.own t).ownsRef) (hawaits : pc.awaits = (w.own t).awaits)
    (hback : pc.inCallback = (w.own t).inCallback)
    (hops : s.ops.any (·.isTimeout) = w.shared.ops.any (·.isTimeout))
    (hfits : Fits owner t s pc) (hupright : Upright s) :
    Inv owner n live (w.move t (s, pc)) := by
  refine h.of_move (h.books.same hrefs howns (h.books.timer.keep htimer hclaimed hops hawaits))
    (h.linked.of_same htimer (inCallback_move hback)) hfits ?_ ?_ hupright
  · intro t' x _ hx
    rw [hrefs.handles]
    exact (h.fits t').live x hx
  · intro hzero
    exact hrefs.count.trans hzero

end Inv

/-! ## Steps that move a reference -/

section References

variable {owner n : Nat} {live : Bool} {w : Workers} {t : Nat} {s : Header} {pc : Pc}

theorem Books.counted_ne_zero (h : Books n live w)
    (hpos : 0 < w.shared.handles.card + n + live.toNat) : countOf w.shared.state ≠ 0 := by
  have := h.count
  omega

theorem Books.take (h : Books n live w) (hcount : countOf s.state = countOf w.shared.state + 1)
    (hpos : w.shared.handles.Nonempty) (hhandles : s.handles = w.shared.handles)
    (htaken : s.taken = w.shared.taken + 1) (hdropped : s.dropped = w.shared.dropped)
    (hdestroys : s.destroys = w.shared.destroys) (hold : (w.own t).ownsRef = false)
    (howns : pc.ownsRef = true) (htimer : Ownerless live (w.move t (s, pc))) :
    Books (n + 1) live (w.move t (s, pc)) := by
  have hcard : 0 < w.shared.handles.card := Finset.card_pos.mpr hpos
  have hne : countOf w.shared.state ≠ 0 := h.counted_ne_zero (by omega)
  have hbooks := h.destroys
  rw [if_neg hne] at hbooks
  refine ⟨h.tally.gain hold howns, ?_, ?_, ?_, htimer⟩
  · rw [move_shared, hcount, hhandles, h.count]
    omega
  · rw [move_shared, htaken, hdropped, h.ledger]
    omega
  · rw [move_shared, hcount, hdestroys, hbooks, if_neg (by omega)]

theorem Books.clear (h : Books n live w) (hspent : live = false)
    (hold : (w.own t).ownsRef = true) (howns : pc.ownsRef = false) (hawaits : pc.awaits = true) :
    Books (n - 1) true (w.move t ({ w.shared with claimed := false }, pc)) := by
  have hpos : 0 < n := h.tally.pos hold
  obtain ⟨m, rfl⟩ : ∃ m, n = m + 1 := ⟨n - 1, by omega⟩
  subst hspent
  exact ⟨h.tally.lose hold howns, h.count, h.ledger, h.destroys,
    fun _ => ⟨rfl, .inr ((awaited_move _ pc).mpr (.inr (.inl hawaits)))⟩, by simp⟩

/-- The reference of the timer is claimed, by the first to come. -/
theorem Books.claim (h : Books n live w) (hawaits : (w.own t).awaits = true)
    (hfree : w.shared.claimed = false) (hold : (w.own t).ownsRef = false)
    (howns : pc.ownsRef = true) :
    Books (n + 1) false (w.move t ({ w.shared with claimed := true }, pc)) := by
  have hlive : live = true := by
    cases live with
    | true => rfl
    | false =>
        rcases h.timer.spent rfl with hclaimed | ⟨-, -, hidle⟩
        · rw [hfree] at hclaimed
          simp at hclaimed
        · exact absurd (.inr ⟨t, hawaits⟩) hidle
  subst hlive
  exact ⟨h.tally.gain hold howns, h.count, h.ledger, h.destroys, by simp, fun _ => .inl rfl⟩

/-- It was claimed before, and nothing changes. -/
theorem Books.claim_late (h : Books n live w) (hclaimed : w.shared.claimed = true)
    (howns : pc.ownsRef = (w.own t).ownsRef) :
    Books n live (w.move t ({ w.shared with claimed := true }, pc)) := by
  refine h.same ⟨rfl, rfl, rfl, rfl, rfl⟩ howns (h.timer.pass hclaimed.symm ?_ ?_)
  · intro hfree
    rw [hclaimed] at hfree
    simp at hfree
  · intro hfree
    rw [hclaimed] at hfree
    simp at hfree

/-- What `release` does to a header with a reference to drop. -/
structure Released (owner t : Nat) (s : Header) (word : Word) (pc : Pc) : Prop where
  eq : s.release owner t = ({ s with
    state := word, destroys := s.destroys + if countOf s.state = 1 then 1 else 0 }, pc)
  count : countOf word + 1 = countOf s.state
  closed : isClosed word = isClosed s.state
  owns : pc.ownsRef = false
  awaits : pc.awaits = false
  back : pc.inCallback = false
  handle : pc.handle = none
  plain : pc.forwardsDestroy = false
  home : pc.ownerOnly = true → t = owner
  took : ∀ h timeoutMs, pc ≠ .setClear h timeoutMs false
  gone : pc.tears = true → countOf word = 0

theorem released_release {s : Header} (owner t : Nat) (hpos : 0 < countOf s.state) :
    ∃ word pc, Released owner t s word pc := by
  obtain ⟨hsame, hcount⟩ := sub_one_of_pos hpos
  have hclosed : isClosed (s.state - 1) = isClosed s.state := isClosed_eq_of_count hsame
  have hcount' : countOf (s.state - 1) + 1 = countOf s.state := by omega
  by_cases hone : countOf s.state = 1
  · have hzero : countOf (s.state - 1) = 0 := by omega
    by_cases ht : t = owner
    · refine ⟨s.state - 1, .tearCancel false, ?_, hcount', hclosed, rfl, rfl, rfl, rfl, rfl,
        fun _ => ht, by simp, fun _ => hzero⟩
      rw [Header.release, if_pos ((release_fst _).mpr hone), if_pos hone, if_pos ht]
      rfl
    · refine ⟨s.state - 1, .destroyMark, ?_, hcount', hclosed, rfl, rfl, rfl, rfl, rfl,
        by simp [Pc.ownerOnly], by simp, fun _ => hzero⟩
      rw [Header.release, if_pos ((release_fst _).mpr hone), if_pos hone, if_neg ht]
      rfl
  · refine ⟨s.state - 1, .idle, ?_, hcount', hclosed, rfl, rfl, rfl, rfl, rfl,
      by simp [Pc.ownerOnly], by simp, by simp [Pc.tears]⟩
    rw [Header.release, if_neg fun h => hone ((release_fst _).mp h), if_neg hone]
    rfl

/-- `release` on a header whose handles or drops are already entered: `m` workers
have a reference of the timer after it. -/
theorem Inv.release {m dropped : Nat} {handles : Finset Nat} (h : Inv owner n live w)
    (hcount : countOf w.shared.state = handles.card + m + live.toNat + 1)
    (hledger : w.shared.taken = dropped + m + live.toNat)
    (htally : ∀ pc : Pc, pc.ownsRef = false → Tallied Pc.ownsRef (Function.update w.own t pc) m)
    (hawaits : (w.own t).awaits = false) (hback : (w.own t).inCallback = false)
    (hlive : ∀ t' x, t' ≠ t → (w.own t').handle = some x → x ∈ handles)
    (hsub : handles ⊆ w.shared.handles) :
    Inv owner m live (w.move t
      ({ w.shared with handles := handles, dropped := dropped }.release owner t)) := by
  obtain ⟨word, pc, hrel⟩ := released_release
    (s := { w.shared with handles := handles, dropped := dropped }) owner t
    (show 0 < countOf w.shared.state by omega)
  have hdown : countOf word + 1 = countOf w.shared.state := hrel.count
  have hclosed : isClosed word = isClosed w.shared.state := hrel.closed
  have hne : countOf w.shared.state ≠ 0 := by omega
  have hone : ∀ {b : Bool}, (b = true → countOf w.shared.state = 0) → b = true →
      countOf word = 0 := fun himp hb => absurd (himp hb) hne
  have hbooks := h.books.destroys
  rw [if_neg hne] at hbooks
  rw [hrel.eq]
  refine h.of_move (s := { w.shared with
    state := word, handles := handles, dropped := dropped,
    destroys := w.shared.destroys + if countOf w.shared.state = 1 then 1 else 0 })
    ⟨htally pc hrel.owns, ?_, hledger, ?_,
      h.books.timer.keep ⟨rfl, rfl, rfl⟩ rfl rfl (hrel.awaits.trans hawaits.symm)⟩ ?_ ?_ hlive ?_ ?_
  · show countOf word = handles.card + m + live.toNat
    omega
  · show w.shared.destroys + _ = if countOf word = 0 then 1 else 0
    rw [hbooks]
    split <;> split <;> omega
  · exact h.linked.of_same ⟨rfl, rfl, rfl⟩ (inCallback_move (hrel.back.trans hback.symm))
  · exact ⟨hrel.home, by simp [hrel.handle], hrel.took, hrel.plain, hrel.gone⟩
  · exact fun hzero => absurd hzero hne
  · refine ⟨hone h.upright.pending, hone h.upright.destroyed, ?_, ?_, ?_⟩
    · exact fun hc => absurd (h.upright.closed (hclosed ▸ hc)) hne
    · exact fun hq => absurd (h.upright.queued hq) hne
    · exact fun x hx => h.upright.names x (hsub hx)

theorem Inv.drop_timer (h : Inv owner n live w) (hold : (w.own t).ownsRef = true)
    (hawaits : (w.own t).awaits = false) (hback : (w.own t).inCallback = false) :
    Inv owner (n - 1) live
      (w.move t ({ w.shared with dropped := w.shared.dropped + 1 }.release owner t)) := by
  have hn : 0 < n := h.books.tally.pos hold
  have hcount := h.books.count
  have hledger := h.books.ledger
  obtain ⟨m, rfl⟩ : ∃ m, n = m + 1 := ⟨n - 1, by omega⟩
  exact h.release (by omega) (by omega) (fun _ howns => h.books.tally.lose hold howns) hawaits
    hback (fun t' x _ hx => (h.fits t').live x hx) (Finset.Subset.refl _)

theorem Inv.drop_handle {x : Nat} (h : Inv owner n live w) (hidle : w.own t = .idle)
    (hlive : x ∈ w.shared.handles) (hunused : ∀ t', (w.own t').handle ≠ some x) :
    Inv owner n live (w.move t (w.shared.dropHandle owner t x)) := by
  have hcount := h.books.count
  have hcard := Finset.card_erase_of_mem hlive
  have hpos : 0 < w.shared.handles.card := Finset.card_pos.mpr ⟨x, hlive⟩
  refine h.release (by omega) h.books.ledger ?_ ?_ ?_ ?_ (Finset.erase_subset _ _)
  · intro pc howns
    exact h.books.tally.same (by rw [howns, hidle]; rfl)
  · rw [hidle]
    rfl
  · rw [hidle]
    rfl
  · intro t' y _ hy
    refine Finset.mem_erase.mpr ⟨?_, (h.fits t').live y hy⟩
    rintro rfl
    exact hunused t' hy

end References

end Uvent.Net.Forwarding
