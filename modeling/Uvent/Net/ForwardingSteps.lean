import Uvent.Net.ReferenceBooks

/-!
# Every access keeps the books

One lemma for each access of a call, of the callback and of `apply_socket_op`
that moves a reference, the timer or what keeps its reference.
-/

namespace Uvent.Net.Forwarding

open Uvent.Lib Uvent.Net.StateWord

section Accesses

variable {owner n : Nat} {live : Bool} {w : Workers} {t x timeoutMs : Nat}

theorem Inv.handles_pos (h : Inv owner n live w) (hx : (w.own t).handle = some x) :
    w.shared.handles.Nonempty := ⟨x, (h.fits t).live x hx⟩

theorem Inv.count_pos (h : Inv owner n live w) (hx : (w.own t).handle = some x) :
    0 < countOf w.shared.state := by
  have hcard := Finset.card_pos.mpr (h.handles_pos hx)
  have := h.books.count
  omega

theorem Upright.of_count {s s' : Header} (h : Upright s) (hpos : 0 < countOf s.state)
    (hpending : s'.teardownPending = s.teardownPending) (hdestroyed : s'.destroyed = s.destroyed)
    (hclosed : isClosed s'.state = isClosed s.state)
    (hops : .destroy ∈ s'.ops → .destroy ∈ s.ops)
    (hnames : ∀ h ∈ s'.handles, h < s'.nextHandle) : Upright s' := by
  have hne : countOf s.state ≠ 0 := by omega
  refine ⟨?_, ?_, ?_, ?_, hnames⟩
  · rw [hpending]
    exact fun hb => absurd (h.pending hb) hne
  · rw [hdestroyed]
    exact fun hb => absurd (h.destroyed hb) hne
  · rw [hclosed]
    exact fun hb => absurd (h.closed hb) hne
  · exact fun hq => absurd (h.queued (hops hq)) hne

theorem Inv.fits_call {pc : Pc} (h : Inv owner n live w) (hx : (w.own t).handle = some x)
    (hpc : pc.handle = some x) (hhome : pc.ownerOnly = true → t = owner)
    (htook : ∀ h timeoutMs, pc ≠ .setClear h timeoutMs false) (hplain : pc.forwardsDestroy = false)
    (htears : pc.tears = false) : Fits owner t w.shared pc := by
  refine ⟨hhome, ?_, htook, hplain, by simp [htears]⟩
  intro y hy
  rw [hpc] at hy
  obtain rfl := Option.some.inj hy
  exact (h.fits t).live x hx

theorem fits_idle (owner t : Nat) (s : Header) : Fits owner t s .idle :=
  ⟨by simp [Pc.ownerOnly], by simp [Pc.handle], by simp, rfl, by simp [Pc.tears]⟩

/-- The call ends, or goes on at a point that keeps nothing for the timer. -/
theorem Inv.go {pc : Pc} (h : Inv owner n live w) (howns : pc.ownsRef = (w.own t).ownsRef)
    (hawaits : pc.awaits = (w.own t).awaits) (hback : pc.inCallback = (w.own t).inCallback)
    (hfits : Fits owner t w.shared pc) : Inv owner n live (w.move t (w.shared, pc)) :=
  h.still ⟨rfl, rfl, rfl, rfl, rfl⟩ (.refl _) rfl howns hawaits hback rfl hfits h.upright

/-- Another worker has seen the timer and goes on to forward an operation or to
claim the reference. -/
theorem Inv.joins {pc : Pc} (h : Inv owner n live w) (htimer : w.shared.timerId ≠ 0)
    (howns : pc.ownsRef = (w.own t).ownsRef) (hawaits : pc.awaits = true)
    (hback : pc.inCallback = (w.own t).inCallback) (hfits : Fits owner t w.shared pc) :
    Inv owner n live (w.move t (w.shared, pc)) := by
  have hbooks : Books n live (w.move t (w.shared, pc)) := by
    refine h.books.same ⟨rfl, rfl, rfl, rfl, rfl⟩ howns (h.books.timer.pass rfl ?_ ?_)
    · exact fun _ _ => .inr ((awaited_move _ _).mpr (.inr (.inl hawaits)))
    · exact fun _ hid => absurd hid htimer
  exact h.of_move hbooks (h.linked.of_same (.refl _) (inCallback_move hback)) hfits
    (fun t' y _ hy => (h.fits t').live y hy) id h.upright

theorem updateTimer_same (s : Header) (id timeoutMs : Nat) :
    SameTimer s (s.updateTimer id timeoutMs) := by
  refine ⟨rfl, ?_, rfl⟩
  unfold Header.updateTimer
  rw [Option.map_map]
  congr 1
  funext timer
  dsimp only [Function.comp]
  split <;> rfl

theorem Inv.updateTimer {id : Nat} (h : Inv owner n live w) (howns : (w.own t).ownsRef = false)
    (hawaits : (w.own t).awaits = false) (hback : (w.own t).inCallback = false) :
    Inv owner n live (w.move t (w.shared.updateTimer id timeoutMs, .idle)) :=
  h.still ⟨rfl, rfl, rfl, rfl, rfl⟩ (updateTimer_same ..) rfl howns.symm hawaits.symm hback.symm
    rfl (fits_idle ..) ⟨h.upright.pending, h.upright.destroyed, h.upright.closed, h.upright.queued,
      h.upright.names⟩

theorem copy_inv (h : Inv owner n live w) (hpc : w.own t = .copy x)
    (hroom : countOf w.shared.state < 2 ^ refcountBits - 1) :
    Inv owner n live (w.move t (exec owner t w.shared (.copy x))) := by
  have hx : (w.own t).handle = some x := by rw [hpc]; rfl
  obtain ⟨hsame, hcount⟩ := addRef_of_lt hroom
  have hnew : w.shared.nextHandle ∉ w.shared.handles :=
    fun hmem => absurd (h.upright.names _ hmem) (Nat.lt_irrefl _)
  have hcard := Finset.card_insert_of_notMem hnew
  have hpos := h.count_pos hx
  have hdestroys := h.books.destroys
  rw [if_neg (by omega)] at hdestroys
  have hbooks := h.books.count
  refine h.of_move ⟨h.books.tally.same (by rw [hpc]; rfl), ?_, h.books.ledger, ?_,
      h.books.timer.keep ⟨rfl, rfl, rfl⟩ rfl rfl (by rw [hpc]; rfl)⟩
    (h.linked.of_same ⟨rfl, rfl, rfl⟩ (inCallback_move (by rw [hpc]; rfl))) (fits_idle ..) ?_ ?_
    (h.upright.of_count hpos rfl rfl (isClosed_eq_of_count hsame) id ?_)
  · show countOf (addRef w.shared.state) = (insert w.shared.nextHandle w.shared.handles).card + n + _
    omega
  · show w.shared.destroys = if countOf (addRef w.shared.state) = 0 then 1 else 0
    rw [hdestroys, if_neg (by omega)]
  · exact fun t' y _ hy => Finset.mem_insert_of_mem ((h.fits t').live y hy)
  · intro hzero
    omega
  · intro y hy
    rcases Finset.mem_insert.mp hy with rfl | hmem
    · exact Nat.lt_succ_self _
    · exact Nat.lt_succ_of_lt (h.upright.names y hmem)

theorem setAddRef_inv (h : Inv owner n live w) (hpc : w.own t = .setAddRef x timeoutMs)
    (hroom : countOf w.shared.state < 2 ^ refcountBits - 1) :
    Inv owner (n + 1) live (w.move t (exec owner t w.shared (.setAddRef x timeoutMs))) := by
  have hx : (w.own t).handle = some x := by rw [hpc]; rfl
  have hpos := h.count_pos hx
  have hopen : isClosed w.shared.state = false := by
    by_contra hclosed
    have := h.upright.closed (by simpa using hclosed)
    omega
  have htook := tryAddRef_of_open hopen hroom
  obtain ⟨hsame, hcount⟩ := addRef_of_lt hroom
  have hword : (tryAddRef w.shared.state).2 = addRef w.shared.state := (tryAddRef_eq_addRef htook).1
  rw [exec.eq_def]
  dsimp only
  rw [if_pos htook, hword]
  refine h.of_move (h.books.take hcount (h.handles_pos hx) rfl rfl rfl rfl (by rw [hpc]; rfl) rfl
    (h.books.timer.keep ⟨rfl, rfl, rfl⟩ rfl rfl (by rw [hpc]; rfl)))
    (h.linked.of_same ⟨rfl, rfl, rfl⟩ (inCallback_move (by rw [hpc]; rfl))) ?_
    (fun t' y _ hy => (h.fits t').live y hy) (fun hzero => by omega)
    (h.upright.of_count hpos rfl rfl (isClosed_eq_of_count hsame) id h.upright.names)
  exact ⟨by simp [Pc.ownerOnly], (h.fits_call hx rfl (by simp [Pc.ownerOnly]) (by simp) rfl rfl :
    Fits owner t w.shared (.setClear x timeoutMs true)).live, by simp, rfl, by simp [Pc.tears]⟩

theorem Inv.setClaimed {claimed live' : Bool} {n' : Nat} {pc : Pc} (h : Inv owner n live w)
    (hbooks : Books n' live' (w.move t ({ w.shared with claimed := claimed }, pc)))
    (hback : pc.inCallback = (w.own t).inCallback) (hfits : Fits owner t w.shared pc) :
    Inv owner n' live' (w.move t ({ w.shared with claimed := claimed }, pc)) :=
  h.of_move hbooks (h.linked.of_same ⟨rfl, rfl, rfl⟩ (inCallback_move hback))
    ⟨hfits.home, hfits.live, hfits.took, hfits.plain, hfits.gone⟩
    (fun t' y _ hy => (h.fits t').live y hy) id
    ⟨h.upright.pending, h.upright.destroyed, h.upright.closed, h.upright.queued, h.upright.names⟩

theorem setClear_inv {took : Bool} (h : Inv owner n live w)
    (hpc : w.own t = .setClear x timeoutMs took)
    (hspent : w.shared.claimed = true ∨ (w.shared.wheel = none ∧ ¬Awaited w)) :
    Inv owner (n - 1) true (w.move t (exec owner t w.shared (.setClear x timeoutMs took))) := by
  have hx : (w.own t).handle = some x := by rw [hpc]; rfl
  have htook : took = true := by
    cases took with
    | true => rfl
    | false => exact absurd hpc ((h.fits t).took x timeoutMs)
  have hlive : live = false := by
    by_contra hl
    obtain ⟨hfree, hthere⟩ := h.books.timer.alive (by simpa using hl)
    rcases hspent with hclaimed | ⟨hnone, hquiet⟩
    · rw [hfree] at hclaimed
      simp at hclaimed
    · rw [hnone] at hthere
      exact hquiet (hthere.resolve_left (by simp))
  have hold : (w.own t).ownsRef = true := by rw [hpc]; exact htook
  rw [exec.eq_def]
  dsimp only
  by_cases ht : t = owner
  · rw [if_pos ht]
    exact h.setClaimed (h.books.clear hlive hold rfl rfl) (by rw [hpc]; rfl)
      (h.fits_call hx rfl (fun _ => ht) (by simp) rfl rfl)
  · rw [if_neg ht]
    exact h.setClaimed (h.books.clear hlive hold rfl rfl) (by rw [hpc]; rfl)
      (h.fits_call hx rfl (by simp [Pc.ownerOnly]) (by simp) rfl rfl)

theorem Inv.arm {pc : Pc} (h : Inv owner n live w) (ht : t = owner)
    (hawaits : (w.own t).awaits = true) (howns : (w.own t).ownsRef = false)
    (hback : (w.own t).inCallback = false) (hpowns : pc.ownsRef = false)
    (hpback : pc.inCallback = false) (hfits : ∀ s, Fits owner t s pc) :
    Inv owner n live (w.move t (w.shared.armOrRefreshSocketTimer timeoutMs, pc)) := by
  subst ht
  have hrefs : SameRefs w.shared (w.shared.armOrRefreshSocketTimer timeoutMs) := by
    unfold Header.armOrRefreshSocketTimer
    split <;> exact ⟨rfl, rfl, rfl, rfl, rfl⟩
  have hclaimed : (w.shared.armOrRefreshSocketTimer timeoutMs).claimed = w.shared.claimed := by
    unfold Header.armOrRefreshSocketTimer
    split <;> rfl
  have hupright : Upright (w.shared.armOrRefreshSocketTimer timeoutMs) := by
    unfold Header.armOrRefreshSocketTimer
    split <;> exact ⟨h.upright.pending, h.upright.destroyed, h.upright.closed, h.upright.queued,
      h.upright.names⟩
  have hlinked : (w.shared.armOrRefreshSocketTimer timeoutMs).wheel.isSome = true ∧
      Linked (w.shared.armOrRefreshSocketTimer timeoutMs) pc := by
    unfold Header.armOrRefreshSocketTimer
    split
    · have hfresh := h.linked.fresh
      refine ⟨rfl, ⟨?_, fun _ => .inl rfl, by simp [hpback], Nat.succ_pos _⟩⟩
      intro timer htimer
      obtain rfl := Option.some.inj htimer
      exact ⟨rfl, Nat.pos_iff_ne_zero.mp hfresh⟩
    · rename_i htimer
      have hsame := updateTimer_same w.shared w.shared.timerId timeoutMs
      exact ⟨hsame.isSome.trans (h.not_inCallback htimer hback),
        h.linked.of_same hsame (hpback.trans hback.symm)⟩
  refine h.of_move (h.books.same hrefs (hpowns.trans howns.symm)
    (h.books.timer.pass hclaimed (fun _ _ => .inl hlinked.1) ?_)) ?_ (hfits _) ?_ ?_ hupright
  · exact fun _ _ _ hquiet => absurd (.inr ⟨t, hawaits⟩) hquiet
  · rw [move_own_self]
    exact hlinked.2
  · intro t' y _ hy
    rw [hrefs.handles]
    exact (h.fits t').live y hy
  · exact fun hzero => hrefs.count.trans hzero

theorem Linked.cancelArmed {s : Header} {pc : Pc} (h : Linked s pc) :
    s.cancelArmed = { s with wheel := none, timerId := 0 } := by
  unfold Header.cancelArmed Header.cancelTimer
  cases hwheel : s.wheel with
  | none =>
      split
      · rename_i hid
        rw [← hwheel, ← hid]
      · simp only [Option.any_none, Bool.false_eq_true, if_false]
        rw [← hwheel]
  | some timer =>
      obtain ⟨hname, hid⟩ := h.named timer hwheel
      rw [if_neg hid]
      simp [hname]

theorem Inv.cancel {pc : Pc} (h : Inv owner n live w) (ht : t = owner)
    (howns : pc.ownsRef = (w.own t).ownsRef) (hpback : pc.inCallback = false)
    (hfits : Fits owner t w.shared pc)
    (htimer : Ownerless live (w.move t ({ w.shared with wheel := none, timerId := 0 }, pc))) :
    Inv owner n live (w.move t (w.shared.cancelArmed, pc)) := by
  subst ht
  rw [h.linked.cancelArmed]
  refine h.of_move (h.books.same ⟨rfl, rfl, rfl, rfl, rfl⟩ howns htimer) ?_
    ⟨hfits.home, hfits.live, hfits.took, hfits.plain, hfits.gone⟩
    (fun t' y _ hy => (h.fits t').live y hy) id
    ⟨h.upright.pending, h.upright.destroyed, h.upright.closed, h.upright.queued, h.upright.names⟩
  rw [move_own_self]
  exact ⟨by simp, by simp, by simp [hpback], h.linked.fresh⟩

theorem shutLoad_inv (h : Inv owner n live w) (hpc : w.own t = .shutLoad x) :
    Inv owner n live (w.move t (exec owner t w.shared (.shutLoad x))) := by
  have hx : (w.own t).handle = some x := by rw [hpc]; rfl
  rw [exec.eq_def]
  dsimp only
  by_cases ht : t = owner
  · rw [if_pos ht]
    split
    · rename_i hcancel
      refine h.cancel ht (by rw [hpc]; rfl) rfl
        (h.fits_call hx rfl (by simp [Pc.ownerOnly]) (by simp) rfl rfl) (h.books.timer.pass rfl ?_ ?_)
      · exact fun _ _ => .inr ((awaited_move _ _).mpr (.inr (.inl rfl)))
      · exact fun _ hid => absurd hid hcancel.1
    · exact h.go (by rw [hpc]; rfl) (by rw [hpc]; rfl) (by rw [hpc]; rfl) (fits_idle ..)
  · rw [if_neg ht]
    have hfits : Fits owner t w.shared
        (.forwardCount x .shutdown (decide (w.shared.timerId ≠ 0))) :=
      h.fits_call hx rfl (by simp [Pc.ownerOnly]) (by simp) rfl rfl
    by_cases hid : w.shared.timerId = 0
    · exact h.go (by rw [hpc]; rfl) (by rw [hpc]; simp [Pc.awaits, SocketOp.isTimeout, hid])
        (by rw [hpc]; rfl) hfits
    · exact h.joins hid (by rw [hpc]; rfl) (by simp [Pc.awaits, SocketOp.isTimeout, hid])
        (by rw [hpc]; rfl) hfits

/-- A worker reads a timer that is not its own and forwards a `Timeout`. -/
theorem forward_inv (h : Inv owner n live w) (hx : (w.own t).handle = some x)
    (hid : w.shared.timerId ≠ 0) (howns : (w.own t).ownsRef = false)
    (hback : (w.own t).inCallback = false) :
    Inv owner n live (w.move t (w.shared, .forwardCount x (.timeout timeoutMs) false)) :=
  h.joins hid howns.symm rfl hback.symm
    (h.fits_call hx rfl (by simp [Pc.ownerOnly]) (by simp) rfl rfl)

theorem opCancel_inv (h : Inv owner n live w) (hpc : w.own t = .opCancel)
    (hkept : w.shared.timerId = 0 ∨ w.shared.claimed = true ∨ Awaited w) :
    Inv owner n live (w.move t (exec owner t w.shared .opCancel)) := by
  have ht : t = owner := (h.fits t).home (by rw [hpc]; rfl)
  have hiff : Awaited (w.move t ({ w.shared with wheel := none, timerId := 0 }, .opDone)) ↔
      Awaited w := by
    rw [awaited_move, awaited_iff w t, hpc]
    rfl
  refine h.cancel ht (by rw [hpc]; rfl) rfl
    ⟨fun _ => ht, by simp [Pc.handle], by simp, rfl, by simp [Pc.tears]⟩
    (h.books.timer.pass rfl ?_ ?_)
  · intro hfree hthere
    rw [hiff]
    rcases hkept with hid | hclaimed | hawaited
    · refine .inr (hthere.resolve_left ?_)
      intro harmed
      obtain ⟨timer, htimer⟩ := Option.isSome_iff_exists.mp harmed
      exact (h.linked.named timer htimer).2 hid
    · rw [hfree] at hclaimed
      simp at hclaimed
    · exact .inr hawaited
  · exact fun _ _ _ hquiet => ⟨rfl, rfl, fun ha => hquiet (hiff.mp ha)⟩

/-- With no reference left there is none of the timer. -/
theorem Books.spent_of_zero (h : Books n live w) (hzero : countOf w.shared.state = 0) :
    live = false := by
  have hcount := h.count
  cases live with
  | false => rfl
  | true =>
      simp only [Bool.toNat_true] at hcount
      omega

theorem tearCancel_inv {forOp : Bool} (h : Inv owner n live w)
    (hpc : w.own t = .tearCancel forOp) :
    Inv owner n live (w.move t (exec owner t w.shared (.tearCancel forOp))) := by
  have ht : t = owner := (h.fits t).home (by rw [hpc]; rfl)
  have hzero := (h.fits t).gone (by rw [hpc]; rfl)
  have hlive := h.books.spent_of_zero hzero
  refine h.cancel ht (by rw [hpc]; rfl) rfl
    ⟨fun _ => ht, by simp [Pc.handle], by simp, rfl, fun _ => hzero⟩ ⟨by simp [hlive], ?_⟩
  intro hl
  refine (h.books.timer.spent hl).imp_right fun ⟨_, _, hquiet⟩ => ⟨rfl, rfl, fun ha => hquiet ?_⟩
  rw [awaited_move] at ha
  rw [awaited_iff w t, hpc]
  exact ha

theorem shutClaim_inv (h : Inv owner n live w) (hpc : w.own t = .shutClaim x) :
    ∃ n' live', Inv owner n' live' (w.move t (exec owner t w.shared (.shutClaim x))) := by
  have hx : (w.own t).handle = some x := by rw [hpc]; rfl
  rw [exec.eq_def]
  dsimp only
  cases hclaimed : w.shared.claimed with
  | true =>
      exact ⟨n, live, h.setClaimed (h.books.claim_late hclaimed (by rw [hpc]; rfl)) (by rw [hpc]; rfl)
        (fits_idle ..)⟩
  | false =>
      exact ⟨n + 1, false, h.setClaimed
        (h.books.claim (by rw [hpc]; rfl) hclaimed (by rw [hpc]; rfl) rfl) (by rw [hpc]; rfl)
        (h.fits_call hx rfl (by simp [Pc.ownerOnly]) (by simp) rfl rfl)⟩

theorem callbackClaim_inv (h : Inv owner n live w) (hpc : w.own t = .callbackClaim) :
    ∃ n' live', Inv owner n' live' (w.move t (exec owner t w.shared .callbackClaim)) := by
  have ht : t = owner := (h.fits t).home (by rw [hpc]; rfl)
  have hfits : ∀ adopted, Fits owner t w.shared (.callbackReset adopted) :=
    fun _ => ⟨fun _ => ht, by simp [Pc.handle], by simp, rfl, by simp [Pc.tears]⟩
  rw [exec.eq_def]
  dsimp only
  cases hclaimed : w.shared.claimed with
  | true =>
      exact ⟨n, live, h.setClaimed (h.books.claim_late hclaimed (by rw [hpc]; rfl))
        (by rw [hpc]; rfl) (hfits _)⟩
  | false =>
      have hawaits : (w.own t).awaits = true := by rw [hpc]; rfl
      -- a forwarded teardown would mean that there is no reference to claim
      have hpending : w.shared.teardownPending = false := by
        by_contra hteardown
        have hzero := h.upright.pending (by simpa using hteardown)
        rcases h.books.timer.spent (h.books.spent_of_zero hzero) with hc | ⟨-, -, hquiet⟩
        · rw [hclaimed] at hc
          simp at hc
        · exact hquiet (.inr ⟨t, hawaits⟩)
      have hadopted : (!false && !w.shared.teardownPending) = true := by simp [hpending]
      rw [hadopted]
      exact ⟨n + 1, false, h.setClaimed (h.books.claim hawaits hclaimed (by rw [hpc]; rfl) rfl)
        (by rw [hpc]; rfl) (hfits _)⟩

theorem callbackReset_inv {adopted : Bool} (h : Inv owner n live w)
    (hpc : w.own t = .callbackReset adopted) :
    Inv owner n live (w.move t (exec owner t w.shared (.callbackReset adopted))) := by
  have ht : t = owner := (h.fits t).home (by rw [hpc]; rfl)
  subst ht
  have hnone : w.shared.wheel = none := h.linked.popped (by rw [hpc]; rfl)
  have hgo : ∀ pc : Pc, pc.ownsRef = adopted → pc.awaits = false → pc.inCallback = false →
      Fits t t w.shared pc → Inv t n live (w.move t ({ w.shared with timerId := 0 }, pc)) := by
    intro pc howns hawaits hback hfits
    have hiff : Awaited (w.move t ({ w.shared with timerId := 0 }, pc)) ↔ Awaited w := by
      rw [awaited_move, awaited_iff w t, hpc, hawaits]
      rfl
    refine h.of_move (h.books.same ⟨rfl, rfl, rfl, rfl, rfl⟩ (by rw [howns, hpc]; rfl)
      (h.books.timer.pass rfl ?_ ?_)) ?_
      ⟨hfits.home, hfits.live, hfits.took, hfits.plain, hfits.gone⟩
      (fun t' y _ hy => (h.fits t').live y hy) id
      ⟨h.upright.pending, h.upright.destroyed, h.upright.closed, h.upright.queued, h.upright.names⟩
    · exact fun _ hthere => hthere.imp_right hiff.mpr
    · exact fun _ _ hwheel hquiet => ⟨rfl, hwheel, fun ha => hquiet (hiff.mp ha)⟩
    · rw [move_own_self]
      exact ⟨by simp [hnone], by simp, by simp [hback], h.linked.fresh⟩
  rw [exec.eq_def]
  dsimp only
  cases adopted with
  | true =>
      exact hgo _ rfl rfl rfl ⟨fun _ => rfl, by simp [Pc.handle], by simp, rfl, by simp [Pc.tears]⟩
  | false => exact hgo _ rfl rfl rfl (fits_idle ..)

theorem fire_inv (h : Inv owner n live w) (hidle : w.own t = .idle) (ht : t = owner)
    (harmed : w.shared.wheel.isSome = true) :
    Inv owner n live (w.move t ({ w.shared with wheel := none }, .callbackClaim)) := by
  subst ht
  refine h.of_move (h.books.same ⟨rfl, rfl, rfl, rfl, rfl⟩ (by rw [hidle]; rfl)
    (h.books.timer.pass rfl ?_ ?_)) ?_
    ⟨fun _ => rfl, by simp [Pc.handle], by simp, rfl, by simp [Pc.tears]⟩
    (fun t' y _ hy => (h.fits t').live y hy) id
    ⟨h.upright.pending, h.upright.destroyed, h.upright.closed, h.upright.queued, h.upright.names⟩
  · exact fun _ _ => .inr ((awaited_move _ _).mpr (.inr (.inl rfl)))
  · intro _ _ hnone
    rw [hnone] at harmed
    simp at harmed
  · rw [move_own_self]
    exact ⟨by simp, fun _ => .inr rfl, fun _ => rfl, h.linked.fresh⟩

theorem forwardPush_inv {op : SocketOp} {hadTimer : Bool} (h : Inv owner n live w)
    (hpc : w.own t = .forwardPush x op hadTimer) :
    Inv owner n live (w.move t (exec owner t w.shared (.forwardPush x op hadTimer))) := by
  have hx : (w.own t).handle = some x := by rw [hpc]; rfl
  have hplain : op ≠ .destroy := by
    have hnot := (h.fits t).plain
    rw [hpc] at hnot
    simpa [Pc.forwardsDestroy] using hnot
  have hgo : ∀ pc : Pc, pc.ownsRef = false → pc.awaits = hadTimer → pc.inCallback = false →
      Fits owner t w.shared pc →
      Inv owner n live (w.move t ({ w.shared with ops := w.shared.ops ++ [op] }, pc)) := by
    intro pc howns hawaits hback hfits
    have hiff : Awaited (w.move t ({ w.shared with ops := w.shared.ops ++ [op] }, pc)) ↔
        Awaited w := by
      rw [awaited_move, awaited_iff w t, hpc, hawaits]
      simp only [Pc.awaits, List.any_append, List.any_cons, List.any_nil, Bool.or_false,
        Bool.or_eq_true]
      tauto
    refine h.of_move (h.books.same ⟨rfl, rfl, rfl, rfl, rfl⟩ (by rw [howns, hpc]; rfl)
      (h.books.timer.pass rfl (fun _ hthere => hthere.imp_right hiff.mpr) ?_))
      (h.linked.of_same ⟨rfl, rfl, rfl⟩ (inCallback_move (by rw [hback, hpc]; rfl)))
      ⟨hfits.home, hfits.live, hfits.took, hfits.plain, hfits.gone⟩
      (fun t' y _ hy => (h.fits t').live y hy) id
      (h.upright.of_count (h.count_pos hx) rfl rfl rfl ?_ h.upright.names)
    · exact fun _ hid hwheel hquiet => ⟨hid, hwheel, fun ha => hquiet (hiff.mp ha)⟩
    · intro hmem
      rcases List.mem_append.mp hmem with hold | hnew
      · exact hold
      · exact absurd (List.mem_singleton.mp hnew).symm hplain
  rw [exec.eq_def]
  dsimp only
  cases hadTimer with
  | true => exact hgo _ rfl rfl rfl (h.fits_call hx rfl (by simp [Pc.ownerOnly]) (by simp) rfl rfl)
  | false => exact hgo _ rfl rfl rfl (fits_idle ..)

theorem apply_inv {op : SocketOp} {rest : List SocketOp} (h : Inv owner n live w)
    (hidle : w.own t = .idle) (ht : t = owner) (hops : w.shared.ops = op :: rest) :
    Inv owner n live (w.move t (w.shared.applySocketOp rest op)) := by
  have hupright : Upright { w.shared with ops := rest } :=
    ⟨h.upright.pending, h.upright.destroyed, h.upright.closed,
      fun hq => h.upright.queued (by rw [hops]; exact List.mem_cons_of_mem _ hq), h.upright.names⟩
  have hstill : ∀ pc : Pc, op.isTimeout = false → pc.ownsRef = false → pc.awaits = false →
      pc.inCallback = false → Fits owner t w.shared pc →
      Inv owner n live (w.move t ({ w.shared with ops := rest }, pc)) := by
    intro pc hop howns hawaits hback hfits
    refine h.still ⟨rfl, rfl, rfl, rfl, rfl⟩ ⟨rfl, rfl, rfl⟩ rfl (by rw [howns, hidle]; rfl)
      (by rw [hawaits, hidle]; rfl) (by rw [hback, hidle]; rfl) ?_
      ⟨hfits.home, hfits.live, hfits.took, hfits.plain, hfits.gone⟩ hupright
    rw [hops, List.any_cons, hop, Bool.false_or]
  have hdone : Fits owner t w.shared .opDone :=
    ⟨fun _ => ht, by simp [Pc.handle], by simp, rfl, by simp [Pc.tears]⟩
  unfold Header.applySocketOp
  cases op with
  | shutdown =>
      dsimp only
      split
      · exact hstill _ rfl rfl rfl rfl hdone
      · exact hstill _ rfl rfl rfl rfl
          ⟨fun _ => ht, by simp [Pc.handle], by simp, rfl, by simp [Pc.tears]⟩
  | destroy =>
      dsimp only
      split
      · exact hstill _ rfl rfl rfl rfl hdone
      · exact hstill _ rfl rfl rfl rfl ⟨fun _ => ht, by simp [Pc.handle], by simp, rfl,
          fun _ => h.upright.queued (by rw [hops]; exact List.mem_cons_self ..)⟩
  | timeout timeoutMs =>
      have hawaited : Awaited w := .inl (by rw [hops]; rfl)
      have hgo : ∀ pc : Pc, pc.ownsRef = false → pc.inCallback = false →
          (pc.awaits = true ∨ w.shared.claimed = true) → Fits owner t w.shared pc →
          Inv owner n live (w.move t ({ w.shared with ops := rest }, pc)) := by
        intro pc howns hback hkeeps hfits
        refine h.of_move (h.books.same ⟨rfl, rfl, rfl, rfl, rfl⟩ (by rw [howns, hidle]; rfl)
          (h.books.timer.pass rfl ?_ fun _ _ _ hquiet => absurd hawaited hquiet))
          (h.linked.of_same ⟨rfl, rfl, rfl⟩ (inCallback_move (by rw [hback, hidle]; rfl)))
          ⟨hfits.home, hfits.live, hfits.took, hfits.plain, hfits.gone⟩
          (fun t' y _ hy => (h.fits t').live y hy) id hupright
        intro hfree _
        rcases hkeeps with hawaits | hclaimed
        · exact .inr ((awaited_move _ _).mpr (.inr (.inl hawaits)))
        · rw [hfree] at hclaimed
          simp at hclaimed
      dsimp only
      split
      · rename_i hskip
        refine hgo _ rfl rfl (.inr ?_) hdone
        -- a header with no reference left has its timer's claimed
        have hgone : countOf w.shared.state = 0 → w.shared.claimed = true := by
          intro hzero
          rcases h.books.timer.spent (h.books.spent_of_zero hzero) with hc | ⟨-, -, hquiet⟩
          · exact hc
          · exact absurd hawaited hquiet
        simp only [Bool.or_eq_true, Bool.and_eq_true, decide_eq_true_eq] at hskip
        rcases hskip with (hdestroyed | hpending) | ⟨-, hclaimed⟩
        · exact hgone (h.upright.destroyed hdestroyed)
        · exact hgone (h.upright.pending hpending)
        · exact hclaimed
      · exact hgo _ rfl rfl (.inl rfl)
          ⟨fun _ => ht, by simp [Pc.handle], by simp, rfl, by simp [Pc.tears]⟩

/-- A point of `destroy` or of an operation that changes no reference and no
timer. -/
theorem Inv.tend {s : Header} {pc : Pc} (h : Inv owner n live w)
    (hrefs : SameRefs w.shared s) (htimer : SameTimer w.shared s)
    (hclaimed : s.claimed = w.shared.claimed) (hold : (w.own t).ownsRef = false)
    (hwaits : (w.own t).awaits = false) (hback : (w.own t).inCallback = false)
    (howns : pc.ownsRef = false) (hawaits : pc.awaits = false) (hpback : pc.inCallback = false)
    (hhandle : pc.handle = none) (hops : s.ops.any (·.isTimeout) = w.shared.ops.any (·.isTimeout))
    (htook : ∀ h timeoutMs, pc ≠ .setClear h timeoutMs false) (hplain : pc.forwardsDestroy = false)
    (hhome : pc.ownerOnly = true → t = owner)
    (hgone : pc.tears = true → countOf w.shared.state = 0) (hupright : Upright s) :
    Inv owner n live (w.move t (s, pc)) := by
  refine h.still hrefs htimer hclaimed (howns.trans hold.symm) (hawaits.trans hwaits.symm)
    (hpback.trans hback.symm) hops ⟨hhome, by simp [hhandle], htook, hplain, ?_⟩ hupright
  exact fun htears => hrefs.count.trans (hgone htears)

theorem setLoad_inv (h : Inv owner n live w) (hpc : w.own t = .setLoad x timeoutMs) :
    Inv owner n live (w.move t (exec owner t w.shared (.setLoad x timeoutMs))) := by
  have hx : (w.own t).handle = some x := by rw [hpc]; rfl
  have howns : (w.own t).ownsRef = false := by rw [hpc]; rfl
  have hback : (w.own t).inCallback = false := by rw [hpc]; rfl
  rw [exec.eq_def]
  dsimp only
  split
  · exact h.go howns.symm (by rw [hpc]; rfl) hback.symm
      (h.fits_call hx rfl (by simp [Pc.ownerOnly]) (by simp) rfl rfl)
  · rename_i hid
    split
    · exact h.updateTimer howns (by rw [hpc]; rfl) hback
    · exact forward_inv h hx hid howns hback

theorem updateLoad_inv (h : Inv owner n live w) (hpc : w.own t = .updateLoad x timeoutMs) :
    Inv owner n live (w.move t (exec owner t w.shared (.updateLoad x timeoutMs))) := by
  have hx : (w.own t).handle = some x := by rw [hpc]; rfl
  have howns : (w.own t).ownsRef = false := by rw [hpc]; rfl
  have hback : (w.own t).inCallback = false := by rw [hpc]; rfl
  rw [exec.eq_def]
  dsimp only
  split
  · exact h.updateTimer howns (by rw [hpc]; rfl) hback
  · split
    · exact h.go howns.symm (by rw [hpc]; rfl) hback.symm (fits_idle ..)
    · rename_i hid
      exact forward_inv h hx hid howns hback

theorem forwardCount_inv {op : SocketOp} {hadTimer : Bool} (h : Inv owner n live w)
    (hpc : w.own t = .forwardCount x op hadTimer) :
    Inv owner n live (w.move t (exec owner t w.shared (.forwardCount x op hadTimer))) := by
  have hup := h.upright
  have hx : (w.own t).handle = some x := by rw [hpc]; rfl
  have hplain := (h.fits t).plain
  rw [hpc] at hplain
  have hfits : Fits owner t w.shared (.forwardPush x op hadTimer) :=
    h.fits_call hx rfl (by simp [Pc.ownerOnly]) (by simp) hplain rfl
  exact h.still ⟨rfl, rfl, rfl, rfl, rfl⟩ ⟨rfl, rfl, rfl⟩ rfl (by rw [hpc]; rfl)
    (by rw [hpc]; rfl) (by rw [hpc]; rfl) rfl
    ⟨hfits.home, hfits.live, hfits.took, hfits.plain, hfits.gone⟩
    ⟨hup.pending, hup.destroyed, hup.closed, hup.queued, hup.names⟩

theorem tearClose_inv {forOp : Bool} (h : Inv owner n live w) (hpc : w.own t = .tearClose forOp) :
    Inv owner n live (w.move t (exec owner t w.shared (.tearClose forOp))) := by
  have hup := h.upright
  have hhome := (h.fits t).home
  have hzero : countOf w.shared.state = 0 := (h.fits t).gone (by rw [hpc]; rfl)
  have hcount : countOf (closeForNewRefs w.shared.state) = 0 :=
    (countOf_closeForNewRefs _).trans hzero
  exact h.tend ⟨countOf_closeForNewRefs _, rfl, rfl, rfl, rfl⟩ ⟨rfl, rfl, rfl⟩ rfl
    (by rw [hpc]; rfl) (by rw [hpc]; rfl) (by rw [hpc]; rfl) rfl rfl rfl rfl rfl (by simp) rfl
    (fun _ => hhome (by rw [hpc]; rfl)) (fun _ => hzero)
    ⟨fun _ => hcount, fun _ => hcount, fun _ => hcount, fun _ => hcount, hup.names⟩

theorem exec_inv (h : Inv owner n live w) (hcareful : Careful w t) :
    ∃ n' live', Inv owner n' live' (w.move t (exec owner t w.shared (w.own t))) := by
  have hup := h.upright
  have hgone := (h.fits t).gone
  have hhome := (h.fits t).home
  unfold Careful at hcareful
  cases hpc : w.own t with
  | idle =>
      refine ⟨n, live, h.go ?_ ?_ ?_ (fits_idle ..)⟩
      all_goals rw [hpc]
  | copy x =>
      rw [hpc] at hcareful
      exact ⟨n, live, copy_inv h hpc hcareful⟩
  | setLoad x timeoutMs => exact ⟨n, live, setLoad_inv h hpc⟩
  | setAddRef x timeoutMs =>
      rw [hpc] at hcareful
      exact ⟨n + 1, live, setAddRef_inv h hpc hcareful⟩
  | setClear x timeoutMs took =>
      rw [hpc] at hcareful
      exact ⟨n - 1, true, setClear_inv h hpc hcareful⟩
  | setArm x timeoutMs =>
      have ht : t = owner := hhome (by rw [hpc]; rfl)
      exact ⟨n, live, h.arm ht (by rw [hpc]; rfl) (by rw [hpc]; rfl) (by rw [hpc]; rfl) rfl rfl
        (fits_idle owner t)⟩
  | updateLoad x timeoutMs => exact ⟨n, live, updateLoad_inv h hpc⟩
  | shutLoad x => exact ⟨n, live, shutLoad_inv h hpc⟩
  | shutClaim x => exact shutClaim_inv h hpc
  | shutRelease x =>
      exact ⟨n - 1, live, h.drop_timer (by rw [hpc]; rfl) (by rw [hpc]; rfl) (by rw [hpc]; rfl)⟩
  | forwardCount x op hadTimer => exact ⟨n, live, forwardCount_inv h hpc⟩
  | forwardPush x op hadTimer => exact ⟨n, live, forwardPush_inv h hpc⟩
  | destroyMark =>
      have hzero : countOf w.shared.state = 0 := hgone (by rw [hpc]; rfl)
      exact ⟨n, live, h.tend ⟨rfl, rfl, rfl, rfl, rfl⟩ ⟨rfl, rfl, rfl⟩ rfl (by rw [hpc]; rfl)
        (by rw [hpc]; rfl) (by rw [hpc]; rfl) rfl rfl rfl rfl rfl (by simp) rfl
        (by simp [Pc.ownerOnly]) (fun _ => hzero)
        ⟨fun _ => hzero, hup.destroyed, hup.closed, hup.queued, hup.names⟩⟩
  | destroyCount =>
      have hzero : countOf w.shared.state = 0 := hgone (by rw [hpc]; rfl)
      exact ⟨n, live, h.tend ⟨rfl, rfl, rfl, rfl, rfl⟩ ⟨rfl, rfl, rfl⟩ rfl (by rw [hpc]; rfl)
        (by rw [hpc]; rfl) (by rw [hpc]; rfl) rfl rfl rfl rfl rfl (by simp) rfl
        (by simp [Pc.ownerOnly]) (fun _ => hzero)
        ⟨hup.pending, hup.destroyed, hup.closed, hup.queued, hup.names⟩⟩
  | destroyPush =>
      have hzero : countOf w.shared.state = 0 := hgone (by rw [hpc]; rfl)
      exact ⟨n, live, h.tend ⟨rfl, rfl, rfl, rfl, rfl⟩ ⟨rfl, rfl, rfl⟩ rfl (by rw [hpc]; rfl)
        (by rw [hpc]; rfl) (by rw [hpc]; rfl) rfl rfl rfl rfl (by simp [SocketOp.isTimeout])
        (by simp) rfl (by simp [Pc.ownerOnly]) (fun _ => hzero)
        ⟨hup.pending, hup.destroyed, hup.closed, fun _ => hzero, hup.names⟩⟩
  | tearCancel forOp => exact ⟨n, live, tearCancel_inv h hpc⟩
  | tearClose forOp => exact ⟨n, live, tearClose_inv h hpc⟩
  | tearFlag forOp =>
      have hzero : countOf w.shared.state = 0 := hgone (by rw [hpc]; rfl)
      exact ⟨n, live, h.tend ⟨rfl, rfl, rfl, rfl, rfl⟩ ⟨rfl, rfl, rfl⟩ rfl (by rw [hpc]; rfl)
        (by rw [hpc]; rfl) (by rw [hpc]; rfl) rfl rfl rfl rfl rfl (by simp) rfl
        (fun _ => hhome (by rw [hpc]; rfl)) (fun _ => hzero)
        ⟨hup.pending, fun _ => hzero, hup.closed, hup.queued, hup.names⟩⟩
  | tearCheck forOp =>
      refine ⟨n, live, h.tend ⟨rfl, rfl, rfl, rfl, rfl⟩ ⟨rfl, rfl, rfl⟩ rfl (by rw [hpc]; rfl)
        (by rw [hpc]; rfl) (by rw [hpc]; rfl) ?_ ?_ ?_ ?_ rfl ?_ ?_
        (fun _ => hhome (by rw [hpc]; rfl)) (fun _ => hgone (by rw [hpc]; rfl))
        ⟨hup.pending, hup.destroyed, hup.closed, hup.queued, hup.names⟩⟩
      all_goals cases forOp <;> first | rfl | simp
  | callbackClaim => exact callbackClaim_inv h hpc
  | callbackReset adopted => exact ⟨n, live, callbackReset_inv h hpc⟩
  | callbackRelease =>
      exact ⟨n - 1, live, h.drop_timer (by rw [hpc]; rfl) (by rw [hpc]; rfl) (by rw [hpc]; rfl)⟩
  | opArm timeoutMs =>
      have ht : t = owner := hhome (by rw [hpc]; rfl)
      exact ⟨n, live, h.arm ht (by rw [hpc]; rfl) (by rw [hpc]; rfl) (by rw [hpc]; rfl) rfl rfl
        fun _ => ⟨fun _ => ht, by simp [Pc.handle], by simp, rfl, by simp [Pc.tears]⟩⟩
  | opCancel =>
      rw [hpc] at hcareful
      exact ⟨n, live, opCancel_inv h hpc hcareful⟩
  | opDone =>
      refine ⟨n, live, h.tend ⟨rfl, rfl, rfl, rfl, rfl⟩ ⟨rfl, rfl, rfl⟩ rfl (by rw [hpc]; rfl)
        (by rw [hpc]; rfl) (by rw [hpc]; rfl) ?_ ?_ ?_ ?_ rfl ?_ ?_
        (fun _ => hhome (by rw [hpc]; rfl)) ?_
        ⟨hup.pending, hup.destroyed, hup.closed, hup.queued, hup.names⟩⟩
      all_goals split <;> first | rfl | simp [Pc.tears]
  | opFree =>
      exact ⟨n, live, h.tend ⟨rfl, rfl, rfl, rfl, rfl⟩ ⟨rfl, rfl, rfl⟩ rfl (by rw [hpc]; rfl)
        (by rw [hpc]; rfl) (by rw [hpc]; rfl) rfl rfl rfl rfl rfl (by simp) rfl
        (by simp [Pc.ownerOnly]) (by simp [Pc.tears])
        ⟨hup.pending, hup.destroyed, hup.closed, hup.queued, hup.names⟩⟩

end Accesses

end Uvent.Net.Forwarding
